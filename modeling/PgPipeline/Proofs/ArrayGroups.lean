import PgPipeline.Proofs.ArrayRoundTrip
import PgPipeline.Proofs.Checked

namespace PgPipeline

open List (Forall₂)

namespace ArrayLiteral

def Progress.keep (p : Progress) (cs : List Char) : Progress :=
  { p with current := cs.reverse ++ p.current }

/-- Inside a group, and outside quotes, the reader takes the text as it stands. -/
def Kept (cs : List Char) : Prop :=
  ∀ (p : Progress) (rest : List Char), p.quoted = false → 0 < p.depth →
    scan p (cs ++ rest) = scan (p.keep cs) rest

variable {p : Progress} {cs ds rest : List Char} {forms : List (List Char)}

theorem Progress.keep_append (p : Progress) (cs ds : List Char) :
    (p.keep cs).keep ds = p.keep (cs ++ ds) := by
  simp [keep]

theorem Kept.append (first : Kept cs) (second : Kept ds) : Kept (cs ++ ds) := by
  intro p rest unquoted inside
  rw [List.append_assoc, first p _ unquoted inside, second (p.keep cs) _ unquoted inside,
    Progress.keep_append]

theorem kept_char {c : Char} (quote : c ≠ '"') (backslash : c ≠ '\\') (brace : isBrace c = false) :
    Kept [c] := by
  intro p rest unquoted inside
  simp only [isBrace, Bool.or_eq_false_iff, decide_eq_false_iff_not] at brace
  have kept : p.step c = p.keep [c] := by
    simp [Progress.step, quote, brace, inside.ne', Progress.push, Progress.keep]
  rw [List.singleton_append, scan_cons backslash, kept]

theorem kept_bare (bare : cs.any isSpecial = false) : Kept cs := by
  induction cs with
  | nil => exact fun _ _ _ _ => rfl
  | cons c cs ih =>
    obtain ⟨special, bare⟩ := by simpa only [List.any_cons, Bool.or_eq_false_iff] using bare
    simp only [isSpecial, Bool.or_eq_false_iff, decide_eq_false_iff_not] at special
    obtain ⟨⟨⟨⟨brace, -⟩, quote⟩, backslash⟩, -⟩ := special
    exact (kept_char quote backslash brace).append (ih bare)

theorem scan_quoted_inside (quoted : p.quoted = true) (inside : 0 < p.depth) :
    scan p (cs.flatMap escapeChar ++ rest) = scan (p.keep (cs.flatMap escapeChar)) rest := by
  induction cs generalizing p with
  | nil => rfl
  | cons c cs ih =>
    have kept : scan p (escapeChar c ++ (cs.flatMap escapeChar ++ rest)) =
        scan (p.keep (escapeChar c)) (cs.flatMap escapeChar ++ rest) := by
      unfold escapeChar
      split
      · have both : p.escaped c = p.keep ['\\', c] := by
          simp [Progress.escaped, inside, Progress.push, Progress.keep]
        rw [List.cons_append, List.singleton_append, scan_escaped, both]
      · next plain =>
        obtain ⟨quote, backslash⟩ := not_or.mp plain
        have alone : p.step c = p.keep [c] := by
          simp [Progress.step, quote, quoted, Progress.push, Progress.keep]
        rw [List.singleton_append, scan_cons backslash, alone]
    rw [List.flatMap_cons, List.append_assoc, kept, ih (p := p.keep (escapeChar c)) quoted inside,
      Progress.keep_append]

theorem kept_quoted (cs : List Char) : Kept ('"' :: cs.flatMap escapeChar ++ ['"']) := by
  intro p rest unquoted inside
  let opened : Progress := ⟨p.elements, '"' :: p.current, true, p.wasQuoted, p.depth⟩
  have opening : p.step '"' = opened := by
    simp [Progress.step, inside, unquoted, Progress.push, opened]
  have text : scan opened (cs.flatMap escapeChar ++ '"' :: rest) =
      scan (opened.keep (cs.flatMap escapeChar)) ('"' :: rest) := scan_quoted_inside rfl inside
  rw [List.append_assoc, List.cons_append, scan_cons (by decide), opening, List.singleton_append,
    text, scan_cons (by decide)]
  simp [Progress.step, inside, unquoted, Progress.push, Progress.keep, opened]

theorem kept_formatElement (cs : List Char) : Kept (formatElement cs) := by
  unfold formatElement
  cases quotes : needsQuotes cs with
  | true => exact kept_quoted cs
  | false =>
    simp only [needsQuotes, Bool.or_eq_false_iff] at quotes
    exact kept_bare quotes.2

theorem kept_intercalate (kept : ∀ form ∈ forms, Kept form) :
    Kept (",".toList.intercalate forms) := by
  induction forms with
  | nil => exact fun _ _ _ _ => rfl
  | cons form forms ih =>
    have first := kept form List.mem_cons_self
    have others := ih fun form mem => kept form (List.mem_cons_of_mem _ mem)
    cases forms with
    | nil => rwa [List.intercalate_singleton]
    | cons next forms =>
      have comma : Kept [','] := kept_char (by decide) (by decide) (by decide)
      rw [List.intercalate_cons_cons]
      exact (first.append comma).append others

theorem scan_brace (kept : ∀ form ∈ forms, Kept form) (unquoted : p.quoted = false) :
    scan p (brace forms ++ rest) = scan (p.keep (brace forms)) rest := by
  have blank : Text.isBlank '\x7b' = false := by decide
  have opening : p.step '\x7b' =
      ⟨p.elements, '\x7b' :: p.current, false, p.wasQuoted, p.depth + 1⟩ := by
    simp [Progress.step, blank, unquoted, Progress.push]
  rw [brace, List.append_assoc, List.cons_append, scan_cons (by decide), opening,
    kept_intercalate kept _ _ rfl (Nat.succ_pos _), List.singleton_append,
    scan_cons (by decide)]
  simp [Progress.step, unquoted, Progress.push, Progress.keep]

theorem kept_brace (kept : ∀ form ∈ forms, Kept form) : Kept (brace forms) :=
  fun _ _ unquoted _ => scan_brace kept unquoted

theorem writes_brace (kept : ∀ form ∈ forms, Kept form) :
    Writes (brace forms) (some (brace forms)) := by
  refine ⟨by simp [brace], fun elements =>
    ⟨(Progress.fresh elements).keep (brace forms), rfl, rfl, rfl, ?_, fun _ => scan_brace kept rfl⟩⟩
  have whole : Text.trim (brace forms) = brace forms :=
    Text.trim_between _ (by decide) (by decide)
  have word : Text.equalIgnoringCase (brace forms) nullWord = false := by
    have first : Text.asciiLower '\x7b' ≠ Text.asciiLower 'N' := by decide
    simp [Text.equalIgnoringCase, brace, nullWord, first]
  have unquoted : ((Progress.fresh elements).keep (brace forms)).wasQuoted = false := rfl
  have raw : ((Progress.fresh elements).keep (brace forms)).current.reverse = brace forms := by
    simp [Progress.keep, Progress.fresh]
  simp [Progress.element, unquoted, raw, whole, word]

/-- The groups that are reached by reading so many levels, each level from left to right. -/
def groupsAt : Nat → String → Except Error (List String)
  | 0, literal => .ok [literal]
  | n + 1, literal => do
    let elements ← parse literal
    let below ← (elements.filterMap id).mapM (groupsAt n)
    return below.flatten

end ArrayLiteral

namespace Value

open ArrayLiteral (Kept)

mutual

theorem kept_asElement : ∀ v : Value, Kept (v.asElement v.toText.toList)
  | null => ArrayLiteral.kept_bare (by decide)
  | array element values => by
    rw [asElement, toText, String.toList_ofList]
    exact ArrayLiteral.kept_brace (kept_elementForms values)
  | bool _ | int2 _ | int4 _ | int8 _ | float4 _ | float8 _ | text _ | bytea _ | uuid _
  | timestamp _ | timestamptz _ | date _ | time _ | json _ | numeric _ | raw _ _ =>
    ArrayLiteral.kept_formatElement _

theorem kept_elementForms : ∀ vs : List Value, ∀ form ∈ elementForms vs, Kept form
  | [], _, mem => nomatch mem
  | v :: vs, form, mem => by
    rw [elementForms] at mem
    rcases List.mem_cons.mp mem with rfl | mem
    · exact kept_asElement v
    · exact kept_elementForms vs form mem

end

/-- The arrays that stand so many levels below a list of values, from left to right. -/
def groupsAt : Nat → List Value → List (List Value)
  | 0, vs => [vs]
  | n + 1, vs => vs.flatMap fun v =>
    match v with
    | array _ inner => groupsAt n inner
    | _ => []

/-- For so many levels there are only arrays. -/
def Nested : Nat → List Value → Prop
  | 0, _ => True
  | n + 1, vs => ∀ v ∈ vs, ∃ element inner, v = array element inner ∧ Nested n inner

theorem parse_groups (groups : List (Oid × List Value)) :
    ArrayLiteral.parse (arrayLiteral (groups.map fun g => array g.1 g.2)) =
      .ok (groups.map fun g => some (arrayLiteral g.2)) := by
  have written : Forall₂ ArrayLiteral.Writes
      (elementForms (groups.map fun g => array g.1 g.2))
      (groups.map fun g => some (ArrayLiteral.brace (elementForms g.2))) := by
    rw [elementForms_eq, List.map_map, List.forall₂_map_left_iff, List.forall₂_map_right_iff,
      List.forall₂_same]
    intro g _
    simp only [Function.comp_apply, asElement, toText, String.toList_ofList]
    exact ArrayLiteral.writes_brace (kept_elementForms g.2)
  rw [ArrayLiteral.parse, arrayLiteral, String.toList_ofList, ArrayLiteral.parseChars_brace written]
  simp only [Except.map, List.map_map]
  rfl

theorem Nested.groups {n : Nat} {vs : List Value} (nested : Nested (n + 1) vs) :
    ∃ groups : List (Oid × List Value), vs = groups.map (fun g => array g.1 g.2) ∧
      ∀ g ∈ groups, Nested n g.2 := by
  induction vs with
  | nil => exact ⟨[], rfl, nofun⟩
  | cons v vs ih =>
    obtain ⟨element, inner, rfl, below⟩ := nested v List.mem_cons_self
    obtain ⟨groups, rfl, all⟩ := ih fun v mem => nested v (List.mem_cons_of_mem _ mem)
    exact ⟨(element, inner) :: groups, rfl, List.forall_mem_cons.mpr ⟨below, all⟩⟩

theorem groupsAt_arrayLiteral {n : Nat} {vs : List Value} (nested : Nested n vs) :
    ArrayLiteral.groupsAt n (arrayLiteral vs) = .ok ((groupsAt n vs).map arrayLiteral) := by
  induction n generalizing vs with
  | zero => rfl
  | succ n ih =>
    obtain ⟨groups, rfl, all⟩ := nested.groups
    have below : (groups.map fun g => arrayLiteral g.2).mapM (ArrayLiteral.groupsAt n) =
        .ok (groups.map fun g => (groupsAt n g.2).map arrayLiteral) := by
      rw [List.mapM_map]
      exact mapM_eq_ok fun g mem => ih (all g mem)
    have whole : (groups.map fun g => some (arrayLiteral g.2)).filterMap id =
        groups.map fun g => arrayLiteral g.2 := by
      simp [List.filterMap_map]
    have parts : groupsAt (n + 1) (groups.map fun g => array g.1 g.2) =
        (groups.map fun g => groupsAt n g.2).flatten := by
      rw [groupsAt, List.flatMap_map, List.flatMap_def]
    rw [ArrayLiteral.groupsAt, parse_groups, parts, List.map_flatten, List.map_map]
    simp only [bind, Except.bind, whole, below]
    rfl

/-- A literal of arrays is read as the literals of these arrays, whatever is in them; so reading it
level by level finds the arrays that were written, each as its own literal and in their order. -/
theorem arrayLiteral_keeps_groups (groups : List (Oid × List Value)) :
    let vs := groups.map fun g => array g.1 g.2
    ArrayLiteral.parse (arrayLiteral vs) = .ok (groups.map fun g => some (arrayLiteral g.2)) ∧
      ∀ n, Nested n vs →
        ArrayLiteral.groupsAt n (arrayLiteral vs) = .ok ((groupsAt n vs).map arrayLiteral) :=
  ⟨parse_groups groups, fun _ nested => groupsAt_arrayLiteral nested⟩

theorem arrayLiteral_keeps_groups_marked :
    let groups := [(Oid.text, [array .text [text "\x7da\"\\", null], array .text []]),
      (Oid.text, [array .text [text "\u00a0,\x7b", text "\x0b"]])]
    let vs := groups.map fun g => array g.1 g.2
    Nested 2 vs ∧
      ArrayLiteral.parse (arrayLiteral vs) = .ok (groups.map fun g => some (arrayLiteral g.2)) ∧
      ArrayLiteral.groupsAt 2 (arrayLiteral vs) = .ok ["\x7b\"\x7da\\\"\\\\\",NULL\x7d",
        "\x7b\x7d", "\x7b\"\u00a0,\x7b\",\x0b\x7d"] := by
  intro groups vs
  have nested : Nested 2 vs := by simp [vs, groups, Nested]
  have written : (groupsAt 2 vs).map arrayLiteral = ["\x7b\"\x7da\\\"\\\\\",NULL\x7d",
      "\x7b\x7d", "\x7b\"\u00a0,\x7b\",\x0b\x7d"] := by decide
  have read := arrayLiteral_keeps_groups groups
  exact ⟨nested, read.1, written ▸ read.2 2 nested⟩

end Value

end PgPipeline
