import PgPipeline.Proofs.ArrayRoundTrip

/-!
Which array literals are read, and how their braces nest.

`ArrayLiteral.ending` and `ArrayLiteral.depths` follow quotes, escapes and braces through a text by
themselves. The reader refuses a literal whose inner text ends in an escape or leaves a quote open;
it does not compare the braces, so a literal that is read is well nested exactly if the braces
between the outer ones are balanced (`ArrayLiteral.parse_nests_iff`).
-/

namespace PgPipeline.ArrayLiteral

inductive Ending where
  | closed
  | quoted
  | escaping
  deriving DecidableEq, Repr

def ending (quoted : Bool) : List Char → Ending
  | [] => if quoted then .quoted else .closed
  | '\\' :: [] => .escaping
  | '\\' :: _ :: rest => ending quoted rest
  | c :: rest => ending (if c = '"' then !quoted else quoted) rest

/-- What a character adds to the depth; between quotes braces are text. -/
def deepening (quoted : Bool) (c : Char) : Int :=
  if quoted then 0 else if c = '\x7b' then 1 else if c = '\x7d' then -1 else 0

def depths (quoted : Bool) (depth : Int) : List Char → List Int
  | [] => []
  | '\\' :: _ :: rest => depth :: depth :: depths quoted depth rest
  | c :: rest =>
    (depth + deepening quoted c) ::
      depths (if c = '"' then !quoted else quoted) (depth + deepening quoted c) rest

/-- The outer braces hold the whole text: the depth is at least one everywhere between them and zero
only behind the last one. -/
structure WellNested (cs : List Char) : Prop where
  closed : ending false cs = .closed
  within : ∃ between, depths false 0 cs = between ++ [0] ∧ ∀ d ∈ between, 1 ≤ d

structure Balanced (cs : List Char) : Prop where
  opened : ∀ d ∈ depths false 0 cs, 0 ≤ d
  closed : (depths false 0 cs).getLastD 0 = 0

variable {quoted : Bool} {cs inner rest : List Char}

theorem plain_of_not_escape {c : Char} (alone : c = '\\' → rest = [] → False)
    (pair : ∀ next others, c = '\\' → rest = next :: others → False) : c ≠ '\\' := by
  intro escape
  cases rest with
  | nil => exact alone escape rfl
  | cons next others => exact pair next others escape rfl

theorem ending_cons {c : Char} (plain : c ≠ '\\') :
    ending quoted (c :: rest) = ending (if c = '"' then !quoted else quoted) rest := by
  cases rest <;> simp [ending, plain]

theorem depths_cons {c : Char} (plain : c ≠ '\\') (depth : Int) :
    depths quoted depth (c :: rest) = (depth + deepening quoted c) ::
      depths (if c = '"' then !quoted else quoted) (depth + deepening quoted c) rest := by
  cases rest <;> simp [depths, plain]

theorem Progress.quoted_step (p : Progress) (c : Char) :
    (p.step c).quoted = if c = '"' then !p.quoted else p.quoted := by
  unfold step
  split
  · dsimp only
    split <;> rfl
  · repeat' split
    all_goals rfl

theorem Progress.quoted_escaped (p : Progress) (c : Char) : (p.escaped c).quoted = p.quoted := by
  unfold escaped
  split <;> rfl

theorem scan_ending (p : Progress) (cs : List Char) :
    match ending p.quoted cs with
    | .escaping => scan p cs = .error .endsInEscape
    | .quoted => ∃ q, scan p cs = .ok q ∧ q.quoted = true
    | .closed => ∃ q, scan p cs = .ok q ∧ q.quoted = false := by
  generalize same : p.quoted = quoted
  fun_induction ending quoted cs generalizing p with
  | case1 => exact ⟨p, rfl, same⟩
  | case2 quoted open_ => exact ⟨p, rfl, by simpa [same] using open_⟩
  | case3 quoted => rfl
  | case4 quoted c rest ih =>
    rw [scan_escaped]
    exact ih (p.escaped c) ((p.quoted_escaped c).trans same)
  | case5 quoted c rest alone pair ih =>
    have plain := plain_of_not_escape alone pair
    rw [scan_cons plain]
    exact ih (p.step c) (by rw [p.quoted_step, same])

theorem depths_shift (quoted : Bool) (depth k : Int) (cs : List Char) :
    depths quoted (depth + k) cs = (depths quoted depth cs).map (· + k) := by
  fun_induction ending quoted cs generalizing depth with
  | case1 => rfl
  | case2 => rfl
  | case3 quoted => simp [depths, deepening]
  | case4 quoted c rest ih =>
    rw [depths, depths, ih, List.map_cons, List.map_cons]
  | case5 quoted c rest alone pair ih =>
    have plain := plain_of_not_escape alone pair
    rw [depths_cons plain, depths_cons plain, List.map_cons, ← ih, Int.add_right_comm]

theorem closing_brace (closed : ending quoted cs = .closed) (depth : Int) :
    ending quoted (cs ++ ['\x7d']) = .closed ∧ depths quoted depth (cs ++ ['\x7d']) =
      depths quoted depth cs ++ [(depths quoted depth cs).getLastD depth - 1] := by
  fun_induction ending quoted cs generalizing depth with
  | case1 => cases closed
  | case2 quoted open_ =>
    obtain rfl : quoted = false := by simpa using open_
    exact ⟨rfl, rfl⟩
  | case3 => cases closed
  | case4 quoted c rest ih =>
    obtain ⟨ends, behind⟩ := ih closed depth
    refine ⟨ends, ?_⟩
    simp only [List.cons_append, depths, behind, List.getLastD_cons]
  | case5 quoted c rest alone pair ih =>
    have plain := plain_of_not_escape alone pair
    obtain ⟨ends, behind⟩ := ih closed (depth + deepening quoted c)
    rw [List.cons_append, ending_cons plain, depths_cons plain, depths_cons plain, behind]
    exact ⟨ends, by rw [List.cons_append, List.getLastD_cons]⟩

theorem wellNested_iff (closed : ending false inner = .closed) :
    WellNested ('\x7b' :: inner ++ ['\x7d']) ↔ Balanced inner := by
  obtain ⟨ends, behind⟩ := closing_brace closed 1
  have raised : depths false 1 inner = (depths false 0 inner).map (· + 1) :=
    depths_shift false 0 1 inner
  have last : ((depths false 0 inner).map (· + 1)).getLastD 1 =
      (depths false 0 inner).getLastD 0 + 1 := by
    rw [List.getLastD_eq_getLast?, List.getLastD_eq_getLast?, List.getLast?_map]
    cases (depths false 0 inner).getLast? <;> rfl
  have outer : depths false 0 ('\x7b' :: inner ++ ['\x7d']) =
      (1 :: (depths false 0 inner).map (· + 1)) ++ [(depths false 0 inner).getLastD 0] := by
    have first : (0 : Int) + deepening false '\x7b' = 1 := rfl
    rw [List.cons_append, depths_cons (by decide), first, if_neg (by decide), behind, raised, last,
      Int.add_sub_cancel, List.cons_append]
  constructor
  · rintro ⟨-, between, depths, within⟩
    rw [outer] at depths
    obtain ⟨rfl, zero⟩ := List.append_inj' depths rfl
    refine ⟨fun d mem => ?_, List.singleton_inj.mp zero⟩
    have above := within (d + 1) (List.mem_cons_of_mem _ (List.mem_map_of_mem mem))
    omega
  · rintro ⟨opened, zero⟩
    refine ⟨ends, _, outer.trans (by rw [zero]), fun d mem => ?_⟩
    rcases List.mem_cons.mp mem with rfl | mem
    · exact Int.le_refl 1
    · obtain ⟨e, inside, rfl⟩ := List.mem_map.mp mem
      have above := opened e inside
      omega

theorem inside?_eq_some_iff :
    inside? cs = some inner ↔ cs = '\x7b' :: inner ++ ['\x7d'] := by
  constructor
  · intro found
    cases cs with
    | nil => cases found
    | cons c rest =>
      rw [inside?] at found
      split at found
      · next braces =>
        obtain ⟨rfl, last⟩ := braces
        obtain ⟨between, rfl⟩ := List.getLast?_eq_some_iff.mp last
        rw [List.dropLast_concat] at found
        cases found
        rfl
      · cases found
  · rintro rfl
    exact inside?_brace inner

theorem parseChars_ending {input : List Char}
    (braces : Text.trim input = '\x7b' :: inner ++ ['\x7d']) :
    match ending false inner with
    | .escaping => parseChars input = .error .endsInEscape
    | .quoted => parseChars input = .error .unterminatedQuote
    | .closed => ∃ es, parseChars input = .ok es := by
  have found : inside? (Text.trim input) = some inner := inside?_eq_some_iff.mpr braces
  cases inner with
  | nil => exact ⟨[], by simp only [parseChars, found]⟩
  | cons c rest =>
    have scanned := scan_ending .start (c :: rest)
    have outside : Progress.start.quoted = false := rfl
    rw [outside] at scanned
    simp only [parseChars, found]
    cases ends : ending false (c :: rest) with
    | escaping =>
      simp only [ends] at scanned ⊢
      rw [scanned]
    | quoted =>
      simp only [ends] at scanned ⊢
      obtain ⟨q, scanned, open_⟩ := scanned
      rw [scanned]
      exact if_pos open_
    | closed =>
      simp only [ends] at scanned ⊢
      obtain ⟨q, scanned, closed⟩ := scanned
      rw [scanned]
      exact ⟨q.finish.elements.reverse, by simp [closed]⟩

/-- A literal is refused unless it stands between braces and the text between them is closed. The
braces in it are not compared: what is read is well nested exactly if they are balanced. -/
theorem parse_nests_iff (input : String) :
    ((∀ inner, Text.trim input.toList ≠ '\x7b' :: inner ++ ['\x7d']) →
      parse input = .error (.malformed (String.ofList (Text.trim input.toList)))) ∧
    ∀ inner, Text.trim input.toList = '\x7b' :: inner ++ ['\x7d'] →
      match ending false inner with
      | .escaping => parse input = .error .endsInEscape
      | .quoted => parse input = .error .unterminatedQuote
      | .closed => (∃ es, parse input = .ok es) ∧
          (WellNested (Text.trim input.toList) ↔ Balanced inner) := by
  constructor
  · intro bare
    have absent : inside? (Text.trim input.toList) = none := by
      cases found : inside? (Text.trim input.toList) with
      | none => rfl
      | some inner => exact absurd (inside?_eq_some_iff.mp found) (bare inner)
    have refused : parseChars input.toList =
        .error (.malformed (String.ofList (Text.trim input.toList))) := by
      simp only [parseChars]
      rw [absent]
    rw [parse, refused]
    rfl
  · intro inner braces
    have read := parseChars_ending braces
    cases ends : ending false inner with
    | escaping =>
      simp only [ends] at read ⊢
      rw [parse, read]
      rfl
    | quoted =>
      simp only [ends] at read ⊢
      rw [parse, read]
      rfl
    | closed =>
      simp only [ends] at read ⊢
      obtain ⟨es, read⟩ := read
      exact ⟨⟨_, by rw [parse, read]; rfl⟩, braces ▸ wellNested_iff ends⟩

theorem parse_nests_iff_grouped :
    let input := " \x7b\"\x7d\\\"\",\x7ba\\\x7b\x7d\x7d "
    let inner := "\"\x7d\\\"\",\x7ba\\\x7b\x7d".toList
    (∀ inner, Text.trim "1,2".toList ≠ '\x7b' :: inner ++ ['\x7d']) ∧
      parse "1,2" = .error (.malformed "1,2") ∧
      Text.trim input.toList = '\x7b' :: inner ++ ['\x7d'] ∧ Balanced inner ∧
      (∃ es, parse input = .ok es) ∧ WellNested (Text.trim input.toList) := by
  intro input inner
  have bare : ∀ inner, Text.trim "1,2".toList ≠ '\x7b' :: inner ++ ['\x7d'] := by
    have same : Text.trim "1,2".toList = ['1', ',', '2'] := by decide
    rw [same]
    exact nofun
  have braces : Text.trim input.toList = '\x7b' :: inner ++ ['\x7d'] := by decide
  have balanced : Balanced inner := ⟨by decide, by decide⟩
  have read := (parse_nests_iff input).2 inner braces
  have closed : ending false inner = .closed := by decide
  rw [closed] at read
  exact ⟨bare, (parse_nests_iff "1,2").1 bare, braces, balanced, read.1, read.2.mpr balanced⟩

/-- A group that is left open takes the rest of the literal, and a brace that closes nothing is
text. -/
theorem parse_accepts_unbalanced :
    parse "\x7b\x7ba\x7d" = .ok [some "\x7ba"] ∧ ¬ WellNested "\x7b\x7ba\x7d".toList ∧
      parse "\x7ba\x7db\x7d" = .ok [some "a\x7db"] ∧ ¬ WellNested "\x7ba\x7db\x7d".toList := by
  have ends {cs : List Char} (nested : WellNested cs) : (depths false 0 cs).getLast? = some 0 := by
    obtain ⟨-, between, depths, -⟩ := nested
    rw [depths, List.getLast?_concat]
  refine ⟨by decide, fun nested => ?_, by decide, fun nested => ?_⟩
  · exact absurd (ends nested) (by decide)
  · exact absurd (ends nested) (by decide)

end PgPipeline.ArrayLiteral
