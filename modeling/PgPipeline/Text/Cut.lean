namespace PgPipeline.Text

def cutFirst (c : Char) : List Char → List Char × Option (List Char)
  | [] => ([], none)
  | d :: rest =>
    if d = c then ([], some rest)
    else
      let (front, behind) := cutFirst c rest
      (d :: front, behind)

def cutLast (c : Char) (cs : List Char) : Option (List Char) × List Char :=
  match cutFirst c cs.reverse with
  | (_, none) => (none, cs)
  | (tail, some front) => (some front.reverse, tail.reverse)

def splitAll (separator : Char) : List Char → List (List Char)
  | [] => [[]]
  | c :: rest =>
    if c = separator then [] :: splitAll separator rest
    else
      match splitAll separator rest with
      | [] => [[c]]
      | first :: others => (c :: first) :: others

def afterStart? : List Char → List Char → Option (List Char)
  | [], cs => some cs
  | _ :: _, [] => none
  | p :: ps, c :: cs => if p = c then afterStart? ps cs else none

end PgPipeline.Text
