import PgPipeline.Wire.Backend

namespace PgPipeline

/-- Reads the first message of a byte string; the second part of the result is what was not read,
also after an error. -/
def BackendMessage.decode (data : Bytes) : Except WireError BackendMessage × Bytes :=
  match data with
  | tag :: a :: b :: c :: d :: rest =>
    let length := Bytes.toInt32 [a, b, c, d]
    if length < 4 then (.error (.invalidLength length), rest)
    else
      let n := length.toInt.toNat - 4
      if rest.length < n then (.error .incompleteBody, rest)
      else (decodeBody tag (rest.take n), rest.drop n)
  | _ => (.error .incompleteHeader, data)

structure Inbound where
  buffered : Bytes
  limit : Nat
  deriving DecidableEq, Repr

namespace Inbound

def defaultLimit : Nat := 2 ^ 30

def empty (limit : Nat) : Inbound := ⟨[], limit⟩

def feed (i : Inbound) (data : Bytes) : Inbound := { i with buffered := i.buffered ++ data }

def takeRaw? (i : Inbound) (n : Nat) : Option (Bytes × Inbound) :=
  if n ≤ i.buffered.length then
    some (i.buffered.take n, { i with buffered := i.buffered.drop n })
  else none

/-- Takes the next message, or `none` while its frame is not complete. A length that no frame has
is an error that stays; a complete frame is taken off even if its body is malformed. -/
def next (i : Inbound) : Except WireError (Option BackendMessage) × Inbound :=
  match i.buffered with
  | tag :: a :: b :: c :: d :: rest =>
    let length := Bytes.toInt32 [a, b, c, d]
    if length < 4 ∨ i.limit < length.toInt.toNat then (.error (.invalidFrameLength length tag), i)
    else
      let n := length.toInt.toNat - 4
      if rest.length < n then (.ok none, i)
      else
        ((BackendMessage.decodeBody tag (rest.take n)).map some, { i with buffered := rest.drop n })
  | _ => (.ok none, i)

theorem length_next_lt {i j : Inbound} {m : BackendMessage} (h : i.next = (.ok (some m), j)) :
    j.buffered.length < i.buffered.length := by
  unfold next at h
  split at h
  · next tag a b c d rest hbuf =>
    dsimp only at h
    split at h
    · simp at h
    · split at h
      · simp at h
      · injection h with _ hj
        rw [← hj, hbuf]
        simp only [List.length_drop, List.length_cons]
        omega
  · simp at h

def drain (i : Inbound) : List BackendMessage × Option WireError × Inbound :=
  match h : i.next with
  | (.ok (some m), rest) =>
    have := length_next_lt h
    let (ms, e, last) := drain rest
    (m :: ms, e, last)
  | (.ok none, rest) => ([], none, rest)
  | (.error e, rest) => ([], some e, rest)
  termination_by i.buffered.length

end Inbound

end PgPipeline
