import PgPipeline.Arena.History

/-!
A lent buffer has one holder.

What a call can do to an arena is said once (`Arena.Did`). Of a slot that was lent before, the
generation says how often its buffer came back, so the handles given out for it carry the
generations from the first to the present one, in order (`Arena.Recorded`), and only the handle
given out last can be the one that is accepted.
-/

namespace PgPipeline

namespace Arena

variable {α : Type} {a b : Arena} {h : BufferHandle} {s : Slot} {answer : Answer α}
  {past : List (Answer α)}

theorem slot?_eq_some : a.slot? h = some s ↔
    a.slots[h.slot]? = some s ∧ s.lent = true ∧ s.generation = h.generation := by
  unfold slot?
  split
  · next found =>
    constructor
    · intro same
      split at same
      · next holds => cases same; exact ⟨found, holds⟩
      · cases same
    · rintro ⟨same, holds⟩
      rw [found] at same
      cases same
      rw [if_pos holds]
  · next missing => simp [missing]

theorem handle_ext {k : BufferHandle} {t : Slot} (held : a.slot? h = some s)
    (other : a.slot? k = some t) (here : h.slot = k.slot) : h = k := by
  obtain ⟨found, -, generation⟩ := slot?_eq_some.mp held
  obtain ⟨there, -, turn⟩ := slot?_eq_some.mp other
  rw [here, there] at found
  cases found
  cases h
  cases k
  cases here
  cases generation
  cases turn
  rfl

theorem read_of_slot? (held : a.slot? h = some s) : a.read h = .ok s.data := by
  simp only [read, use, held]
  rfl

theorem perform_release (held : a.slot? h = some s) :
    a.perform (α := α) (.release h) = (.returned h, a.endLease h) ∧
      a.perform (α := α) (.endLease h) = (.returned h, a.endLease h) := by
  simp only [perform, release, endLease, held, and_self]

theorem perform_use (held : a.slot? h = some s) (f : Bytes → α × Bytes) :
    (a.perform (.use h f)).1 = .used (f s.data).1 ∧
      (a.perform (.use h f)).2.read h = .ok (f s.data).2 := by
  obtain ⟨found, lent, same⟩ := slot?_eq_some.mp held
  obtain ⟨within, -⟩ := List.getElem?_eq_some_iff.mp found
  simp only [perform, use, held, true_and]
  rw [read_of_slot? (s := { s with data := (f s.data).2 })]
  exact slot?_eq_some.mpr ⟨List.getElem?_set_self within, lent, same⟩

theorem perform_of_stale (stale : a.slot? h = none) {call : Call α} (made : call.handle? = some h) :
    a.perform call = (.refused h.stale, a) := by
  cases call with
  | acquire | lease => cases made
  | release | use =>
    cases made
    simp only [perform, release, use, stale]
  | endLease =>
    cases made
    simp only [perform, release, endLease, stale]

structure Sound (a : Arena) : Prop where
  distinct : a.free.Nodup
  free : ∀ slot, slot ∈ a.free ↔ ∃ s, a.slots[slot]? = some s ∧ s.lent = false
  leased : a.leased = a.slots.countP (·.lent)

theorem Sound.empty (size : Nat) : (empty size).Sound :=
  ⟨List.nodup_nil, by simp [Arena.empty], rfl⟩

inductive Did (a : Arena) : Option BufferHandle → Answer α → Arena → Prop
  | reused {slot : Nat} {rest : List Nat} {s : Slot} (first : a.free = slot :: rest)
      (found : a.slots[slot]? = some s) (idle : s.lent = false) :
      Did a none (.lent ⟨slot, s.generation⟩)
        { a with
          slots := a.slots.set slot { s with lent := true }
          free := rest
          leased := a.leased + 1
          reused := a.reused + 1 }
  | allocated (used : a.free = []) : Did a none (.lent ⟨a.slots.length, 0⟩) a.allocate.2
  | returned {h : BufferHandle} {s : Slot} (held : a.slot? h = some s) :
      Did a (some h) (.returned h)
        { a with
          slots := a.slots.set h.slot
            { s with lent := false, generation := (s.generation + 1) % generations }
          free := h.slot :: a.free
          leased := a.leased - 1 }
  | used {h : BufferHandle} {s : Slot} {result : α} {data : Bytes} (held : a.slot? h = some s) :
      Did a (some h) (.used result) { a with slots := a.slots.set h.slot { s with data := data } }
  | refused {h : BufferHandle} (stale : a.slot? h = none) : Did a (some h) (.refused h.stale) a

theorem Sound.acquire (sound : a.Sound) : Did (α := α) a none (.lent a.acquire.1) a.acquire.2 := by
  cases all : a.free with
  | nil =>
    simp only [Arena.acquire, all]
    exact .allocated all
  | cons slot rest =>
    obtain ⟨s, found, idle⟩ := (sound.free slot).mp (by simp [all])
    simp only [Arena.acquire, all, found]
    exact .reused all found idle

theorem Sound.did (sound : a.Sound) (call : Call α) :
    Did a call.handle? (a.perform call).1 (a.perform call).2 := by
  cases call with
  | acquire | lease => exact sound.acquire
  | release h =>
    cases held : a.slot? h with
    | none =>
      simp only [perform, Arena.release, held]
      exact .refused held
    | some s =>
      simp only [perform, Arena.release, held]
      exact .returned held
  | endLease h =>
    cases held : a.slot? h with
    | none =>
      simp only [perform, Arena.release, endLease, held]
      exact .refused held
    | some s =>
      simp only [perform, Arena.release, endLease, held]
      exact .returned held
  | use h f =>
    cases held : a.slot? h with
    | none =>
      simp only [perform, Arena.use, held]
      exact .refused held
    | some s =>
      simp only [perform, Arena.use, held]
      exact .used held

theorem exists_idle_set {slots : List Slot} {i : Nat} (within : i < slots.length) (s : Slot)
    (slot : Nat) : (∃ t, (slots.set i s)[slot]? = some t ∧ t.lent = false) ↔
      if i = slot then s.lent = false else ∃ t, slots[slot]? = some t ∧ t.lent = false := by
  split
  · next here =>
    subst here
    simp [within]
  · next there => rw [List.getElem?_set_ne there]

theorem Did.sound {h? : Option BufferHandle} (did : Did a h? answer b) (sound : a.Sound) :
    b.Sound := by
  cases did with
  | @reused slot rest s first found idle =>
    have distinct := sound.distinct
    rw [first, List.nodup_cons] at distinct
    obtain ⟨within, same⟩ := List.getElem?_eq_some_iff.mp found
    refine ⟨distinct.2, fun other => ?_, ?_⟩
    · rw [exists_idle_set within]
      split
      · next here => simp [← here, distinct.1]
      · next there => rw [← sound.free, first, List.mem_cons, or_iff_right (Ne.symm there)]
    · simp [List.countP_set within, same, idle, sound.leased]
  | allocated used =>
    refine ⟨sound.distinct, fun other => ?_, ?_⟩
    · simp only [allocate, sound.free other, List.getElem?_append]
      split
      · rfl
      · next beyond =>
        rw [List.getElem?_eq_none (Nat.le_of_not_lt beyond), List.getElem?_singleton]
        split <;> simp
    · simp [allocate, sound.leased]
  | @returned h s held =>
    obtain ⟨found, lent, same⟩ := slot?_eq_some.mp held
    obtain ⟨within, here⟩ := List.getElem?_eq_some_iff.mp found
    refine ⟨List.nodup_cons.mpr ⟨?_, sound.distinct⟩, fun other => ?_, ?_⟩
    · rw [sound.free h.slot, found]
      simp [lent]
    · rw [exists_idle_set within, List.mem_cons]
      split
      · next same => simp [same]
      · next there => rw [← sound.free, or_iff_right (Ne.symm there)]
    · simp [List.countP_set within, here, lent, sound.leased]
  | @used h s result data held =>
    obtain ⟨found, lent, same⟩ := slot?_eq_some.mp held
    obtain ⟨within, here⟩ := List.getElem?_eq_some_iff.mp found
    refine ⟨sound.distinct, fun other => ?_, ?_⟩
    · rw [exists_idle_set within, sound.free]
      split
      · next same => simp [← same, lent, here, within]
      · rfl
    · have held : 0 < a.slots.countP (·.lent) :=
        List.countP_pos_iff.mpr ⟨s, List.mem_of_getElem? found, lent⟩
      simp only [List.countP_set within, here, lent, sound.leased, if_true]
      omega
  | refused => exact sound

/-- What is done with one handle does not touch the buffer of another. -/
theorem Did.slot? {h? : Option BufferHandle} (did : Did a h? answer b) (held : a.slot? h = some s)
    (other : h? ≠ some h) : b.slot? h = some s := by
  obtain ⟨found, lent, same⟩ := slot?_eq_some.mp held
  rw [slot?_eq_some]
  refine ⟨?_, lent, same⟩
  have apart {k : BufferHandle} {t : Slot} (there : a.slot? k = some t) (other : some k ≠ some h) :
      k.slot ≠ h.slot := fun here => other (congrArg some (handle_ext there held here))
  cases did with
  | @reused slot rest t first there idle =>
    rw [List.getElem?_set_ne, found]
    rintro rfl
    rw [found] at there
    cases there
    rw [lent] at idle
    cases idle
  | allocated =>
    obtain ⟨within, -⟩ := List.getElem?_eq_some_iff.mp found
    simp only [allocate, List.getElem?_append_left within, found]
  | returned there => rw [List.getElem?_set_ne (apart there other), found]
  | used there => rw [List.getElem?_set_ne (apart there other), found]
  | refused => exact found

theorem Sound.run (sound : a.Sound) (calls : List (Call α)) : (a.run calls).2.Sound := by
  induction calls generalizing a with
  | nil => exact sound
  | cons call calls ih => exact ih ((sound.did call).sound sound)

theorem Sound.slot?_run (sound : a.Sound) (held : a.slot? h = some s) (calls : List (Call α))
    (others : ∀ call ∈ calls, call.handle? ≠ some h) : (a.run calls).2.slot? h = some s := by
  induction calls generalizing a with
  | nil => exact held
  | cons call calls ih =>
    obtain ⟨other, others⟩ := List.forall_mem_cons.mp others
    have did := sound.did call
    exact ih (did.sound sound) (did.slot? held other) others

def firstHandles (slot count : Nat) : List BufferHandle :=
  (List.range count).map fun generation => ⟨slot, generation⟩

theorem mem_firstHandles {slot count : Nat} :
    h ∈ firstHandles slot count ↔ h.slot = slot ∧ h.generation < count := by
  rw [firstHandles, List.mem_map]
  constructor
  · rintro ⟨generation, less, rfl⟩
    exact ⟨rfl, List.mem_range.mp less⟩
  · rintro ⟨rfl, less⟩
    exact ⟨h.generation, List.mem_range.mpr less, rfl⟩

theorem nodup_firstHandles (slot count : Nat) : (firstHandles slot count).Nodup := by
  refine List.pairwise_map.mpr (List.nodup_range.imp ?_)
  intro m n other same
  cases same
  exact other rfl

theorem ofSlot_append_singleton {handles : List BufferHandle} {count : Nat → Nat}
    (all : ∀ slot, ofSlot slot handles = firstHandles slot (count slot))
    (next : h.generation = count h.slot) (slot : Nat) :
    ofSlot slot (handles ++ [h]) =
      firstHandles slot (if h.slot = slot then count slot + 1 else count slot) := by
  rw [ofSlot, List.filter_append, ← ofSlot, all]
  split
  · next here =>
    subst here
    simp [firstHandles, List.range_succ, ← next]
  · next there => simp [there]

theorem issued_append (past : List (Answer α)) (answer : Answer α) :
    issued (past ++ [answer]) = issued past ++ answer.lent?.toList := by
  cases answer <;> simp [issued, Answer.lent?]

theorem returned_append (past : List (Answer α)) (answer : Answer α) :
    returned (past ++ [answer]) = returned past ++ answer.returned?.toList := by
  cases answer <;> simp [returned, Answer.returned?]

/-- How often the buffer of a slot was lent; how often it came back is the generation. -/
def loans (s : Slot) : Nat := s.generation + if s.lent then 1 else 0

def tally (count : Slot → Nat) (slots : List Slot) (slot : Nat) : Nat :=
  (slots[slot]?).elim 0 count

section
variable {slots : List Slot} {i : Nat} (count : Slot → Nat)

theorem tally_of_getElem? (found : slots[i]? = some s) : tally count slots i = count s := by
  rw [tally, found, Option.elim_some]

theorem tally_set (within : i < slots.length) (s : Slot) (slot : Nat) :
    tally count (slots.set i s) slot = if i = slot then count s else tally count slots slot := by
  split
  · next here =>
    subst here
    exact tally_of_getElem? count (List.getElem?_set_self within)
  · next there => rw [tally, List.getElem?_set_ne there, tally]

theorem tally_append (slots : List Slot) (s : Slot) (slot : Nat) :
    tally count (slots ++ [s]) slot =
      if slots.length = slot then count s else tally count slots slot := by
  split
  · next here =>
    subst here
    exact tally_of_getElem? count List.getElem?_concat_length
  · next there =>
    rw [tally, List.getElem?_append, tally]
    split
    · rfl
    · next beyond =>
      have far : slots.length ≤ slot := Nat.le_of_not_lt beyond
      rw [List.getElem?_eq_none far, List.getElem?_eq_none (by simp; omega)]

theorem tally_length (slots : List Slot) : tally count slots slots.length = 0 := by
  rw [tally, List.getElem?_eq_none (Nat.le_refl _), Option.elim_none]

end

structure Recorded (a : Arena) (past : List (Answer α)) : Prop where
  given : ∀ slot, ofSlot slot (issued past) = firstHandles slot (tally loans a.slots slot)
  back : ∀ slot, ofSlot slot (returned past) = firstHandles slot (tally (·.generation) a.slots slot)
  total : a.allocated + a.reused = (issued past).length

theorem Recorded.empty (size : Nat) : Recorded (Arena.empty size) ([] : List (Answer α)) :=
  ⟨fun _ => rfl, fun _ => rfl, rfl⟩

/-- So few buffers of every slot came back that the generations of the slot do not wrap. -/
def Few (answers : List (Answer α)) : Prop :=
  ∀ slot, (ofSlot slot (returned answers)).length < generations

theorem Recorded.keep (recorded : Recorded a past) (noLoan : answer.lent? = none)
    (noReturn : answer.returned? = none)
    (loaned : ∀ slot, tally loans b.slots slot = tally loans a.slots slot)
    (turned : ∀ slot, tally (·.generation) b.slots slot = tally (·.generation) a.slots slot)
    (total : b.allocated + b.reused = a.allocated + a.reused) :
    Recorded b (past ++ [answer]) := by
  have issued_eq : issued (past ++ [answer]) = issued past := by simp [issued_append, noLoan]
  have returned_eq : returned (past ++ [answer]) = returned past := by
    simp [returned_append, noReturn]
  constructor
  · intro slot
    rw [issued_eq, loaned, recorded.given]
  · intro slot
    rw [returned_eq, turned, recorded.back]
  · rw [issued_eq, total, recorded.total]

theorem Recorded.lend (recorded : Recorded a past)
    (next : h.generation = tally loans a.slots h.slot)
    (loaned : ∀ slot, tally loans b.slots slot =
      if h.slot = slot then tally loans a.slots slot + 1 else tally loans a.slots slot)
    (turned : ∀ slot, tally (·.generation) b.slots slot = tally (·.generation) a.slots slot)
    (total : b.allocated + b.reused = a.allocated + a.reused + 1) :
    Recorded b (past ++ [.lent h]) := by
  constructor
  · intro slot
    rw [issued_append, loaned]
    exact ofSlot_append_singleton recorded.given next slot
  · intro slot
    simp only [returned_append, Answer.returned?, Option.toList_none, List.append_nil, turned,
      recorded.back]
  · rw [total, recorded.total, issued_append, List.length_append]
    rfl

theorem Recorded.giveBack (recorded : Recorded a past)
    (next : h.generation = tally (·.generation) a.slots h.slot)
    (loaned : ∀ slot, tally loans b.slots slot = tally loans a.slots slot)
    (turned : ∀ slot, tally (·.generation) b.slots slot =
      if h.slot = slot then tally (·.generation) a.slots slot + 1
      else tally (·.generation) a.slots slot)
    (total : b.allocated + b.reused = a.allocated + a.reused) :
    Recorded b (past ++ [.returned h]) := by
  constructor
  · intro slot
    simp only [issued_append, Answer.lent?, Option.toList_none, List.append_nil, loaned,
      recorded.given]
  · intro slot
    rw [returned_append, turned]
    exact ofSlot_append_singleton recorded.back next slot
  · simp only [total, recorded.total, issued_append, Answer.lent?, Option.toList_none,
      List.append_nil]

theorem Did.recorded {h? : Option BufferHandle} (did : Did a h? answer b)
    (recorded : Recorded a past) (few : Few (past ++ [answer])) :
    Recorded b (past ++ [answer]) := by
  cases did with
  | @reused slot rest s first found idle =>
    obtain ⟨within, -⟩ := List.getElem?_eq_some_iff.mp found
    have loaned : tally loans a.slots slot = s.generation := by
      rw [tally_of_getElem? _ found, loans, idle]
      rfl
    refine recorded.lend loaned.symm (fun other => ?_) (fun other => ?_) ?_
    · rw [tally_set _ within]
      split
      · next same => rw [← same, loaned, loans, if_pos rfl]
      · rfl
    · rw [tally_set _ within]
      split
      · next same => rw [← same, tally_of_getElem? _ found]
      · rfl
    · simp only [Arena.allocated, List.length_set]
      omega
  | allocated used =>
    refine recorded.lend (tally_length _ _).symm (fun other => ?_) (fun other => ?_) ?_
    · rw [allocate, tally_append]
      split
      · next same => rw [← same, tally_length, loans, if_pos rfl]
      · rfl
    · rw [allocate, tally_append]
      split
      · next same => rw [← same, tally_length]
      · rfl
    · simp only [Arena.allocated, allocate, List.length_append, List.length_singleton]
      omega
  | @returned h s held =>
    obtain ⟨found, lent, same⟩ := slot?_eq_some.mp held
    obtain ⟨within, -⟩ := List.getElem?_eq_some_iff.mp found
    have turned : h.generation = tally (·.generation) a.slots h.slot := by
      rw [tally_of_getElem? _ found, same]
    -- the handle that comes back is counted too, so its generation is not the last one
    have counted := few h.slot
    rw [returned_append, Answer.returned?, Option.toList_some,
      ofSlot_append_singleton recorded.back turned, if_pos rfl, ← turned, firstHandles,
      List.length_map, List.length_range] at counted
    refine recorded.giveBack turned (fun other => ?_) (fun other => ?_) ?_
    · rw [tally_set _ within]
      split
      · next there =>
        rw [← there, tally_of_getElem? _ found, loans, loans, same, Nat.mod_eq_of_lt counted, lent]
        rfl
      · rfl
    · rw [tally_set _ within]
      split
      · next there => rw [← there, ← turned, same, Nat.mod_eq_of_lt counted]
      · rfl
    · simp only [Arena.allocated, List.length_set]
  | @used h s result data held =>
    obtain ⟨found, -⟩ := slot?_eq_some.mp held
    obtain ⟨within, -⟩ := List.getElem?_eq_some_iff.mp found
    have same (count : Slot → Nat) (kept : count { s with data := data } = count s) (slot : Nat) :
        tally count (a.slots.set h.slot { s with data := data }) slot =
          tally count a.slots slot := by
      rw [tally_set _ within]
      split
      · next here => rw [kept, ← here, tally_of_getElem? _ found]
      · rfl
    have allocated : a.allocated = (a.slots.set h.slot { s with data := data }).length :=
      List.length_set.symm
    exact recorded.keep rfl rfl (same _ rfl) (same _ rfl) (congrArg (· + a.reused) allocated.symm)
  | refused => exact recorded.keep rfl rfl (fun _ => rfl) (fun _ => rfl) rfl

theorem getLast?_firstHandles (slot count : Nat) :
    (firstHandles slot (count + 1)).getLast? = some ⟨slot, count⟩ := by
  simp [firstHandles, List.range_succ]

section
variable (recorded : Recorded a past)
include recorded

theorem Recorded.mem_returned :
    h ∈ returned past ↔ h.generation < tally (·.generation) a.slots h.slot := by
  calc h ∈ returned past
    _ ↔ h ∈ ofSlot h.slot (returned past) := by simp [ofSlot]
    _ ↔ h.generation < tally (·.generation) a.slots h.slot := by
      rw [recorded.back, mem_firstHandles, and_iff_right rfl]

theorem Recorded.live_iff : Live past h ↔ ∃ s, a.slot? h = some s := by
  rw [Live, recorded.given, recorded.mem_returned, Nat.not_lt]
  simp only [slot?_eq_some, tally]
  cases found : a.slots[h.slot]? with
  | none => simp [firstHandles]
  | some s =>
    simp only [Option.elim_some, loans]
    cases lent : s.lent with
    -- all handles of the slot came back
    | false =>
      constructor
      · rintro ⟨last, back⟩
        have first := mem_firstHandles.mp (List.mem_of_getLast? last)
        exact absurd first.2 (Nat.not_lt_of_le back)
      · rintro ⟨t, same, holds, -⟩
        cases same
        rw [lent] at holds
        cases holds
    | true =>
      rw [if_pos rfl, getLast?_firstHandles]
      constructor
      · rintro ⟨last, -⟩
        exact ⟨s, rfl, lent, congrArg BufferHandle.generation (Option.some.inj last)⟩
      · rintro ⟨t, same, -, turn⟩
        cases same
        rw [turn]
        exact ⟨rfl, Nat.le_refl _⟩

theorem Recorded.nodup_issued : (issued past).Nodup := by
  refine List.nodup_iff_count.mpr fun h => ?_
  have once := List.nodup_iff_count.mp (nodup_firstHandles h.slot (tally loans a.slots h.slot)) h
  rw [← recorded.given, ofSlot, List.count_filter (by simp)] at once
  exact once

theorem Recorded.mem_live : h ∈ live past ↔ ∃ s, a.slot? h = some s := by
  have known : Live past h → h ∈ issued past := fun holds =>
    (List.mem_filter.mp (List.mem_of_getLast? holds.1)).1
  rw [live, List.mem_filter, decide_eq_true_eq, and_iff_right_of_imp known, recorded.live_iff]

theorem Recorded.mem_slots {slot : Nat} : slot ∈ (live past).map (·.slot) ↔
    ∃ s, a.slots[slot]? = some s ∧ s.lent = true := by
  rw [List.mem_map]
  constructor
  · rintro ⟨h, mem, rfl⟩
    obtain ⟨s, held⟩ := recorded.mem_live.mp mem
    obtain ⟨found, lent, -⟩ := slot?_eq_some.mp held
    exact ⟨s, found, lent⟩
  · rintro ⟨s, found, lent⟩
    have held : a.slot? ⟨slot, s.generation⟩ = some s := slot?_eq_some.mpr ⟨found, lent, rfl⟩
    exact ⟨⟨slot, s.generation⟩, recorded.mem_live.mpr ⟨s, held⟩, rfl⟩

theorem Recorded.mem_free (sound : a.Sound) {slot : Nat} : slot ∈ a.free ↔
    slot < a.allocated ∧ ∀ h, Live past h → h.slot ≠ slot := by
  rw [sound.free]
  constructor
  · rintro ⟨s, found, idle⟩
    refine ⟨(List.getElem?_eq_some_iff.mp found).1, ?_⟩
    rintro h holds rfl
    obtain ⟨t, held⟩ := recorded.live_iff.mp holds
    obtain ⟨there, lent, -⟩ := slot?_eq_some.mp held
    rw [found] at there
    cases there
    rw [idle] at lent
    cases lent
  · rintro ⟨within, nobody⟩
    have found : a.slots[slot]? = some a.slots[slot] := List.getElem?_eq_getElem within
    refine ⟨a.slots[slot], found, ?_⟩
    cases lent : a.slots[slot].lent with
    | false => rfl
    | true =>
      have held : a.slot? ⟨slot, a.slots[slot].generation⟩ = some a.slots[slot] :=
        slot?_eq_some.mpr ⟨found, lent, rfl⟩
      exact absurd rfl (nobody _ (recorded.live_iff.mpr ⟨_, held⟩))

theorem Recorded.nodup_slots : ((live past).map (·.slot)).Nodup := by
  refine List.pairwise_map.mpr ?_
  refine (recorded.nodup_issued.filter _).imp_of_mem ?_
  intro h k held other apart here
  obtain ⟨s, held⟩ := recorded.mem_live.mp held
  obtain ⟨t, other⟩ := recorded.mem_live.mp other
  exact apart (handle_ext held other here)

end

theorem countP_eq_range (p : Slot → Bool) (slots : List Slot) :
    slots.countP p = ((List.range slots.length).filter fun i => (slots[i]?).any p).length := by
  induction slots with
  | nil => rfl
  | cons s slots ih =>
    rw [List.countP_cons, ih, List.length_cons, List.range_succ_eq_map, List.filter_cons,
      List.filter_map]
    split <;> simp_all [Function.comp_def]

theorem Recorded.length_live (recorded : Recorded a past) :
    (live past).length = a.slots.countP (·.lent) := by
  have same : ((live past).map (·.slot)).Perm
      ((List.range a.slots.length).filter fun i => (a.slots[i]?).any (·.lent)) := by
    refine (List.perm_ext_iff_of_nodup recorded.nodup_slots (List.nodup_range.filter _)).mpr ?_
    intro slot
    rw [recorded.mem_slots, List.mem_filter, List.mem_range, Option.any_eq_true]
    constructor
    · rintro ⟨s, found, lent⟩
      exact ⟨(List.getElem?_eq_some_iff.mp found).1, s, found, lent⟩
    · rintro ⟨-, here⟩
      exact here
  rw [countP_eq_range, ← same.length_eq, List.length_map]

/-- As many buffers were made as were ever live at once. -/
structure Peaked (a : Arena) (past : List (Answer α)) : Prop where
  most : ∀ before, before <+: past → (live before).length ≤ a.allocated
  reached : ∃ before, before <+: past ∧ (live before).length = a.allocated

theorem Peaked.empty (size : Nat) : Peaked (Arena.empty size) ([] : List (Answer α)) := by
  constructor
  · intro before start
    rw [List.prefix_nil.mp start]
    exact Nat.le_refl _
  · exact ⟨[], List.prefix_rfl, rfl⟩

theorem Peaked.step (peaked : Peaked a past) (recorded : Recorded b (past ++ [answer]))
    (grown : a.allocated = b.allocated ∨
      a.allocated ≤ b.allocated ∧ ∀ s ∈ b.slots, s.lent = true) :
    Peaked b (past ++ [answer]) := by
  have more : a.allocated ≤ b.allocated := by omega
  have now : (live (past ++ [answer])).length ≤ b.allocated := by
    rw [recorded.length_live]
    exact List.countP_le_length
  constructor
  · intro before start
    rcases List.prefix_concat_iff.mp start with rfl | start
    · exact now
    · exact Nat.le_trans (peaked.most before start) more
  · obtain ⟨before, start, most⟩ := peaked.reached
    rcases grown with same | ⟨-, all⟩
    · exact ⟨before, start.trans (List.prefix_append _ _), most.trans same⟩
    · refine ⟨past ++ [answer], List.prefix_rfl, ?_⟩
      rw [recorded.length_live]
      exact List.countP_eq_length.mpr all

theorem Did.peaked {h? : Option BufferHandle} (did : Did a h? answer b) (sound : a.Sound)
    (recorded : Recorded b (past ++ [answer])) (peaked : Peaked a past) :
    Peaked b (past ++ [answer]) := by
  refine peaked.step recorded ?_
  cases did with
  | reused | returned | used => exact .inl (by simp [Arena.allocated])
  | refused => exact .inl rfl
  | allocated used =>
    refine .inr ⟨by simp [Arena.allocated, allocate], ?_⟩
    -- no slot is free, so a slot that is not lent would be missing there
    intro s mem
    rcases List.mem_append.mp mem with mem | mem
    · obtain ⟨slot, found⟩ := List.mem_iff_getElem?.mp mem
      have free := sound.free slot
      rw [used] at free
      cases lent : s.lent with
      | true => rfl
      | false => exact absurd (free.mpr ⟨s, found, lent⟩) List.not_mem_nil
    · rw [List.mem_singleton.mp mem]

theorem Few.of_append {more : List (Answer α)} (few : Few (past ++ more)) : Few past := by
  intro slot
  refine Nat.lt_of_le_of_lt (List.Sublist.length_le ?_) (few slot)
  exact ((List.sublist_append_left past more).filterMap _).filter _

theorem Recorded.run {calls : List (Call α)} (recorded : Recorded a past) (sound : a.Sound)
    (peaked : Peaked a past) (few : Few (past ++ (a.run calls).1)) :
    Recorded (a.run calls).2 (past ++ (a.run calls).1) ∧
      Peaked (a.run calls).2 (past ++ (a.run calls).1) := by
  induction calls generalizing a past with
  | nil =>
    simp only [Arena.run, List.append_nil]
    exact ⟨recorded, peaked⟩
  | cons call calls ih =>
    have did := sound.did call
    have first : past ++ (a.run (call :: calls)).1 =
        past ++ [(a.perform call).1] ++ ((a.perform call).2.run calls).1 := List.append_cons ..
    rw [first] at few ⊢
    have recorded := did.recorded recorded few.of_append
    exact ih recorded (did.sound sound) (did.peaked sound recorded peaked) few

/-- Every lent buffer has one holder: a handle is accepted while it is live, and whatever is tried
with another one is refused and changes nothing. Live handles stand for buffers of their own, which
only the handle itself reaches, and the counters tell what is lent, what is free, how many buffers
were asked for and how many were lent at most. -/
theorem run_lends_to_one_holder (size : Nat) (calls : List (Call α))
    (few : Few ((empty size).run calls).1) :
    let answers := ((empty size).run calls).1
    let a := ((empty size).run calls).2
    (∀ h, Live answers h →
        a.perform (α := α) (.release h) = (.returned h, a.endLease h) ∧
        a.perform (α := α) (.endLease h) = (.returned h, a.endLease h) ∧
        ∃ data, a.read h = .ok data ∧ ∀ f : Bytes → α × Bytes,
          (a.perform (.use h f)).1 = .used (f data).1 ∧
          (a.perform (.use h f)).2.read h = .ok (f data).2) ∧
      (∀ h, ¬ Live answers h → ∀ call : Call α, call.handle? = some h →
        a.perform call = (.refused h.stale, a)) ∧
      (∀ h k, Live answers h → Live answers k → h.slot = k.slot → h = k) ∧
      (∀ h, Live answers h → ∀ later : List (Call α), (∀ call ∈ later, call.handle? ≠ some h) →
        (a.run later).2.read h = a.read h) ∧
      a.leased = (live answers).length ∧
      (issued answers).Nodup ∧
      a.free.Nodup ∧
      (∀ slot, slot ∈ a.free ↔ slot < a.allocated ∧ ∀ h, Live answers h → h.slot ≠ slot) ∧
      a.allocated + a.reused = (issued answers).length ∧
      (∀ before, before <+: answers → (live before).length ≤ a.allocated) ∧
      (∃ before, before <+: answers ∧ (live before).length = a.allocated) := by
  intro answers a
  have sound : a.Sound := (Sound.empty size).run calls
  obtain ⟨recorded, peaked⟩ : a.Recorded answers ∧ a.Peaked answers :=
    (Recorded.empty size).run (Sound.empty size) (.empty size) few
  have accepted {h : BufferHandle} (holds : Live answers h) : ∃ s, a.slot? h = some s :=
    recorded.live_iff.mp holds
  refine ⟨?_, ?_, ?_, ?_, ?_, recorded.nodup_issued, sound.distinct,
    fun slot => recorded.mem_free sound, recorded.total, peaked.most, peaked.reached⟩
  · intro h holds
    obtain ⟨s, held⟩ := accepted holds
    obtain ⟨release, endLease⟩ := perform_release held
    exact ⟨release, endLease, s.data, read_of_slot? held, perform_use held⟩
  · intro h gone call made
    refine perform_of_stale ?_ made
    exact Option.eq_none_iff_forall_ne_some.mpr fun s held => gone (recorded.live_iff.mpr ⟨s, held⟩)
  · intro h k holds other here
    obtain ⟨s, held⟩ := accepted holds
    obtain ⟨t, other⟩ := accepted other
    exact handle_ext held other here
  · intro h holds later others
    obtain ⟨s, held⟩ := accepted holds
    rw [read_of_slot? (sound.slot?_run held later others), read_of_slot? held]
  · rw [sound.leased, recorded.length_live]

theorem run_lends_to_one_holder_reissued :
    let calls : List (Call Unit) := [.acquire, .release ⟨0, 0⟩, .release ⟨0, 0⟩, .lease]
    let a := ((empty 8).run calls).2
    Few ((empty 8).run calls).1 ∧
      a.perform (α := Unit) (.release ⟨0, 0⟩) = (.refused (.staleBuffer 0 0), a) ∧
      a.perform (α := Unit) (.release ⟨0, 1⟩) = (.returned ⟨0, 1⟩, a.endLease ⟨0, 1⟩) := by
  intro calls a
  have few : Few ((empty 8).run calls).1 := by
    intro slot
    have once : (returned ((empty 8).run calls).1).length = 1 := by decide
    exact Nat.lt_of_le_of_lt (List.length_filter_le _ _) (by rw [once]; decide)
  obtain ⟨accepted, refused, -⟩ := run_lends_to_one_holder 8 calls few
  exact ⟨few, refused ⟨0, 0⟩ (by decide) _ rfl, (accepted ⟨0, 1⟩ (by decide)).1⟩

end Arena

end PgPipeline
