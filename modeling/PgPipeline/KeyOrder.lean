namespace PgPipeline.KeyOrder

variable {β : Type}

def insert (key : String) (value : β) : List (String × β) → List (String × β)
  | [] => [(key, value)]
  | (k, v) :: rest =>
    if key < k then (key, value) :: (k, v) :: rest
    else if key = k then (key, value) :: rest
    else (k, v) :: insert key value rest

/-- The list of some pairs; of two pairs with one key the later one counts. -/
def ofList (pairs : List (String × β)) : List (String × β) :=
  pairs.foldl (fun done p => insert p.1 p.2 done) []

end PgPipeline.KeyOrder
