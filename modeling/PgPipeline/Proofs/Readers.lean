import PgPipeline.Proofs.Checked
import PgPipeline.Wire.Backend

namespace PgPipeline

section

variable {n : Type → Type} [Monad n] {α β : Type} {r : StateT Bytes n α} {bs cs : Bytes} {a : α}
  {b : β}

/-- The reader takes these bytes off the front of every input and yields the value. -/
def Reads (r : StateT Bytes n α) (bs : Bytes) (a : α) : Prop :=
  ∀ rest, r (bs ++ rest) = pure (a, rest)

theorem Reads.nothing (a : α) : Reads (pure a : StateT Bytes n α) [] a := fun _ => rfl

theorem Reads.all (h : Reads r bs a) : r bs = pure (a, []) := by
  have read := h []
  rwa [List.append_nil] at read

variable [LawfulMonad n]

theorem Reads.bind {next : α → StateT Bytes n β} (first : Reads r bs a)
    (second : Reads (next a) cs b) : Reads (r >>= next) (bs ++ cs) b := by
  intro rest
  have run : (r >>= next) (bs ++ cs ++ rest) =
      (r (bs ++ cs ++ rest) >>= fun p => next p.1 p.2) := rfl
  rw [run, List.append_assoc, first (cs ++ rest), pure_bind]
  exact second rest

theorem Reads.last {next : α → StateT Bytes n β} (first : Reads r bs a)
    (second : Reads (next a) [] b) : Reads (r >>= next) bs b := by
  have both := first.bind second
  rwa [List.append_nil] at both

theorem Reads.map {f : α → β} (first : Reads r bs a) :
    Reads (r >>= fun x => pure (f x)) bs (f a) :=
  first.last (Reads.nothing (f a))

end

theorem Wire.cut_zero {content : Bytes} (nonzero : 0 ∉ content) (rest : Bytes) :
    (content ++ 0 :: rest).contains 0 ∧
      (content ++ 0 :: rest).takeWhile (· != 0) = content ∧
      ((content ++ 0 :: rest).dropWhile (· != 0)).drop 1 = rest := by
  have kept : ∀ x ∈ content, (x != 0) = true := fun x mem =>
    bne_iff_ne.mpr fun zero => nonzero (zero ▸ mem)
  rw [List.takeWhile_append_of_pos kept, List.dropWhile_append_of_pos kept]
  simp

def WireError.isFieldFault : WireError → Bool
  | truncatedBody => true
  | missingTerminator => true
  | negativeCount _ => true
  | _ => false

namespace BodyReader

variable {α β : Type} {r : BodyReader α} {bs : Bytes}

theorem reads_bytes {n : Nat} (length : bs.length = n) : Reads (bytes n) bs bs := by
  intro rest
  subst length
  rw [bytes, if_neg (by simp), List.take_left, List.drop_left]
  rfl

theorem reads_byte (x : UInt8) : Reads byte [x] x := fun _ => rfl

/-- The reader depends on the bytes it takes alone: where it reads a value, it takes some bytes for
it, and it would read the same in front of anything else. Where it reads none, a field is at fault. -/
structure IsLocal (r : BodyReader α) : Prop where
  takes : ∀ {data a rest}, r data = .ok (a, rest) → ∃ taken, data = taken ++ rest ∧ Reads r taken a
  faults : ∀ {data e}, r data = .error e → e.isFieldFault

namespace IsLocal

theorem nothing (a : α) : IsLocal (pure a : BodyReader α) where
  takes := by
    rintro data _ _ ⟨⟩
    exact ⟨[], rfl, Reads.nothing a⟩
  faults := nofun

theorem failing {e : WireError} (fault : e.isFieldFault) : IsLocal (throw e : BodyReader α) where
  takes := nofun
  faults := by
    rintro _ _ ⟨⟩
    exact fault

theorem bind {next : α → BodyReader β} (first : IsLocal r) (second : ∀ a, IsLocal (next a)) :
    IsLocal (r >>= next) where
  takes := by
    intro data b rest read
    obtain ⟨⟨a, middle⟩, found, more⟩ := bind_ok read
    obtain ⟨front, rfl, takesFront⟩ := first.takes found
    obtain ⟨back, rfl, takesBack⟩ := (second a).takes more
    exact ⟨front ++ back, by simp, takesFront.bind takesBack⟩
  faults := by
    intro data e failed
    have run : (r >>= next) data = (r data >>= fun p => next p.1 p.2) := rfl
    rw [run] at failed
    cases found : r data with
    | error e' =>
      rw [found] at failed
      cases failed
      exact first.faults found
    | ok p =>
      rw [found] at failed
      exact (second p.1).faults failed

theorem map {f : α → β} (first : IsLocal r) : IsLocal (r >>= fun x => pure (f x)) :=
  first.bind fun x => nothing (f x)

end IsLocal

theorem isLocal_bytes (n : Nat) : IsLocal (bytes n) where
  takes := by
    intro data a rest read
    rw [bytes] at read
    split at read
    · cases read
    · next enough =>
      cases read
      exact ⟨data.take n, (List.take_append_drop n data).symm, reads_bytes (by simp; omega)⟩
  faults := by
    intro data e failed
    rw [bytes] at failed
    split at failed
    · cases failed
      rfl
    · cases failed

theorem isLocal_byte : IsLocal byte where
  takes := by
    intro data a rest read
    cases data with
    | nil => cases read
    | cons x data =>
      cases read
      exact ⟨[a], rfl, reads_byte a⟩
  faults := by
    intro data e failed
    cases data with
    | nil =>
      cases failed
      rfl
    | cons b data => cases failed

theorem cstring_append {content : Bytes} (nonzero : 0 ∉ content) (rest : Bytes) :
    cstring (content ++ 0 :: rest) = .ok (Utf8.lossy content, rest) := by
  obtain ⟨closed, front, behind⟩ := Wire.cut_zero nonzero rest
  rw [cstring, if_pos closed, front, behind]

theorem isLocal_cstring : IsLocal cstring where
  takes := by
    intro data a rest read
    by_cases closed : 0 ∈ data
    · obtain ⟨content, behind, rfl, nonzero⟩ := List.eq_append_cons_of_mem closed
      rw [cstring_append nonzero] at read
      cases read
      refine ⟨content ++ [0], by simp, fun more => ?_⟩
      rw [List.append_assoc]
      exact cstring_append nonzero more
    · rw [cstring, if_neg (by simpa using closed)] at read
      cases read
  faults := by
    intro data e failed
    rw [cstring] at failed
    split at failed
    · cases failed
    · cases failed
      rfl

theorem isLocal_int16 : IsLocal int16 := (isLocal_bytes 2).map

theorem isLocal_int32 : IsLocal int32 := (isLocal_bytes 4).map

theorem isLocal_count : IsLocal count := by
  refine isLocal_int16.bind fun n => ?_
  split
  · exact IsLocal.failing rfl
  · exact IsLocal.nothing _

theorem IsLocal.items {item : BodyReader α} (each : IsLocal item) (n : Nat) :
    IsLocal (items item n) := by
  induction n with
  | zero => exact IsLocal.nothing []
  | succ n ih => exact each.bind fun first => ih.map

theorem IsLocal.counted {item : BodyReader α} (each : IsLocal item) : IsLocal (counted item) :=
  isLocal_count.bind fun n => each.items n

theorem isLocal_sized : IsLocal sized := by
  refine isLocal_int32.bind fun length => ?_
  split
  · exact IsLocal.nothing none
  · exact (isLocal_bytes _).map

theorem isLocal_column : IsLocal column :=
  isLocal_cstring.bind fun _ => isLocal_int32.bind fun _ => isLocal_int16.bind fun _ =>
    isLocal_int32.bind fun _ => isLocal_int16.bind fun _ => isLocal_int32.bind fun _ =>
      isLocal_int16.map

end BodyReader

end PgPipeline
