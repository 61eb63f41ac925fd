import Mathlib.Data.List.DropRight
import Mathlib.Data.List.Forall2
import PgPipeline.Value

namespace PgPipeline

open List (Forall₂)

theorem Text.trim_trimStart (cs : List Char) : trim (trimStart cs) = trim cs := by
  rw [trim, trim, trimStart, trimStart, List.dropWhile_idempotent]

theorem Text.trim_between {first last : Char} (cs : List Char) (front : isBlank first = false)
    (back : isBlank last = false) : trim (first :: cs ++ [last]) = first :: cs ++ [last] := by
  have start : trimStart (first :: cs ++ [last]) = first :: cs ++ [last] := by
    simp [trimStart, front]
  rw [trim, start, trimEnd, List.reverse_append]
  simp [back]

namespace ArrayLiteral

def Progress.fresh (elements : List (Option (List Char))) : Progress := ⟨elements, [], false, false, 0⟩

def bareContent (cs : List Char) : Option (List Char) :=
  if Text.equalIgnoringCase (Text.trim cs) nullWord then none else some (Text.trim cs)

def contentOf (cs : List Char) : Option (List Char) :=
  if needsQuotes cs then some cs else bareContent cs

/-- The reader takes the form for an element with this content, whatever comes before and after. -/
structure Writes (form : List Char) (content : Option (List Char)) : Prop where
  nonempty : form ≠ []
  reads : ∀ elements, ∃ p : Progress, p.quoted = false ∧ p.depth = 0 ∧ p.elements = elements ∧
    p.element = content ∧ ∀ rest, scan (.fresh elements) (form ++ rest) = scan p rest

variable {p : Progress} {cs rest : List Char}

theorem scan_cons {c : Char} (plain : c ≠ '\\') : scan p (c :: rest) = scan (p.step c) rest := by
  cases rest <;> simp [scan, plain]

theorem scan_escaped (c : Char) : scan p ('\\' :: c :: rest) = scan (p.escaped c) rest := by
  rw [scan]

theorem scan_quoted (quoted : p.quoted = true) (flat : p.depth = 0) :
    scan p (cs.flatMap escapeChar ++ rest) =
      scan { p with current := cs.reverse ++ p.current } rest := by
  induction cs generalizing p with
  | nil => rfl
  | cons c cs ih =>
    have pushed : scan p (escapeChar c ++ (cs.flatMap escapeChar ++ rest)) =
        scan (p.push c) (cs.flatMap escapeChar ++ rest) := by
      unfold escapeChar
      split
      · have kept : p.escaped c = p.push c := by simp [Progress.escaped, flat]
        rw [List.cons_append, List.singleton_append, scan_escaped, kept]
      · next plain =>
        obtain ⟨quote, backslash⟩ := not_or.mp plain
        have kept : p.step c = p.push c := by simp [Progress.step, quote, quoted]
        rw [List.singleton_append, scan_cons backslash, kept]
    rw [List.flatMap_cons, List.append_assoc, pushed, ih (p := p.push c) quoted flat]
    simp [Progress.push]

theorem writes_quoted (cs : List Char) :
    Writes ('"' :: cs.flatMap escapeChar ++ ['"']) (some cs) := by
  refine ⟨by simp, fun elements =>
    ⟨⟨elements, cs.reverse, false, true, 0⟩, rfl, rfl, rfl, ?_, fun rest => ?_⟩⟩
  · simp [Progress.element]
  · have opening : (Progress.fresh elements).step '"' = ⟨elements, [], true, true, 0⟩ := rfl
    rw [List.cons_append, List.cons_append, List.append_assoc, scan_cons (by decide), opening,
      scan_quoted rfl rfl, List.append_nil, List.singleton_append, scan_cons (by decide)]
    rfl

theorem scan_bare (bare : cs.any isSpecial = false) (elements : List (Option (List Char)))
    (current rest : List Char) : scan ⟨elements, current, false, false, 0⟩ (cs ++ rest) =
      scan ⟨elements, (if current = [] then Text.trimStart cs else cs).reverse ++ current, false,
        false, 0⟩ rest := by
  induction cs generalizing current with
  | nil => simp [Text.trimStart]
  | cons c cs ih =>
    obtain ⟨special, bare⟩ := by simpa only [List.any_cons, Bool.or_eq_false_iff] using bare
    simp only [isSpecial, isBrace, Bool.or_eq_false_iff, decide_eq_false_iff_not] at special
    obtain ⟨⟨⟨⟨⟨opening, closing⟩, comma⟩, quote⟩, backslash⟩, -⟩ := special
    have step : Progress.step ⟨elements, current, false, false, 0⟩ c =
        if Text.isBlank c ∧ current = [] then ⟨elements, current, false, false, 0⟩
        else ⟨elements, c :: current, false, false, 0⟩ := by
      simp [Progress.step, quote, opening, closing, comma, Progress.push]
    rw [List.cons_append, scan_cons backslash, step]
    split
    · next passed =>
      rw [ih bare, passed.2, if_pos rfl, if_pos rfl]
      simp [Text.trimStart, passed.1]
    · next kept =>
      rw [ih bare, if_neg (by simp)]
      split
      · next first =>
        have visible : Text.isBlank c = false := by simpa [first] using kept
        simp [Text.trimStart, visible]
      · simp

theorem writes_bare (nonempty : cs ≠ []) (bare : cs.any isSpecial = false) :
    Writes cs (bareContent cs) := by
  refine ⟨nonempty, fun elements => ⟨⟨elements, (Text.trimStart cs).reverse, false, false, 0⟩, rfl, rfl,
    rfl, ?_, fun rest => ?_⟩⟩
  · simp [Progress.element, bareContent, Text.trim_trimStart]
  · have read := scan_bare bare elements [] rest
    rw [if_pos rfl, List.append_nil] at read
    exact read

theorem writes_null : Writes nullWord none := by
  have bare : nullWord.any isSpecial = false := by decide
  exact writes_bare (by decide) bare

theorem writes_formatElement (cs : List Char) : Writes (formatElement cs) (contentOf cs) := by
  unfold formatElement contentOf
  cases quotes : needsQuotes cs with
  | true => exact writes_quoted cs
  | false =>
    simp only [needsQuotes, Bool.or_eq_false_iff] at quotes
    exact writes_bare (by simpa using quotes.1.1) quotes.2

/-- The text of an element is read as itself exactly if it is quoted or has no blanks at its ends. -/
theorem contentOf_eq_iff (cs : List Char) :
    contentOf cs = some cs ↔ needsQuotes cs = true ∨ Text.trim cs = cs := by
  unfold contentOf
  cases quotes : needsQuotes cs with
  | true => simp
  | false =>
    simp only [needsQuotes, Bool.or_eq_false_iff] at quotes
    simp only [bareContent, Bool.false_eq_true, if_false, false_or]
    constructor
    · intro same
      split at same
      · cases same
      · exact Option.some_inj.mp same
    · intro same
      rw [same, if_neg (by simp [quotes.1.2])]

theorem Progress.step_comma (unquoted : p.quoted = false) (flat : p.depth = 0) :
    p.step ',' = .fresh (p.element :: p.elements) := by
  have comma : Text.isBlank ',' = false := by decide
  simp [Progress.step, unquoted, flat, comma, Progress.finish, Progress.fresh]

theorem scan_forms {forms : List (List Char)} {contents : List (Option (List Char))}
    (written : Forall₂ Writes forms contents) (some_ : forms ≠ [])
    (elements : List (Option (List Char))) :
    ∃ p : Progress, scan (.fresh elements) (",".toList.intercalate forms) = .ok p ∧
      p.quoted = false ∧ p.finish.elements = contents.reverse ++ elements := by
  induction written generalizing elements with
  | nil => exact absurd rfl some_
  | @cons form content forms contents first written ih =>
    obtain ⟨p, unquoted, flat, before, read, scanned⟩ := first.reads elements
    cases forms with
    | nil =>
      cases written
      have last := scanned []
      rw [List.append_nil] at last
      rw [List.intercalate_singleton, last]
      refine ⟨p, rfl, unquoted, ?_⟩
      simp [Progress.finish, read, before]
    | cons next others =>
      obtain ⟨q, rest, closed, all⟩ := ih (by simp) (content :: elements)
      refine ⟨q, ?_, closed, by rw [all]; simp⟩
      rw [List.intercalate_cons_cons, List.append_assoc, scanned]
      have comma : scan p (',' :: ",".toList.intercalate (next :: others)) =
          scan (p.step ',') (",".toList.intercalate (next :: others)) := scan_cons (by decide)
      rw [Progress.step_comma unquoted flat, read, before] at comma
      exact comma.trans rest

theorem inside?_brace (cs : List Char) :
    inside? ('\x7b' :: cs ++ ['\x7d']) = some cs := by
  simp [inside?]

theorem parseChars_brace {forms : List (List Char)} {contents : List (Option (List Char))}
    (written : Forall₂ Writes forms contents) : parseChars (brace forms) = .ok contents := by
  unfold parseChars
  dsimp only
  rw [brace, Text.trim_between _ (by decide) (by decide), inside?_brace]
  cases forms with
  | nil =>
    cases written
    rfl
  | cons form forms =>
    obtain ⟨p, scanned, unquoted, all⟩ := scan_forms written (by simp) []
    have nonempty : ",".toList.intercalate (form :: forms) ≠ [] := by
      cases written with
      | cons first others =>
        have front := first.nonempty
        cases forms with
        | nil => simpa using front
        | cons next others => simp
    have start : Progress.start = .fresh [] := rfl
    split
    · next none_ => cases none_
    · next empty => exact absurd (Option.some_inj.mp empty) nonempty
    · next inner _ same =>
      obtain rfl := Option.some_inj.mp same
      rw [start, scanned]
      simp [unquoted, all]

end ArrayLiteral

namespace Value

def isArray : Value → Bool
  | array _ _ => true
  | _ => false

def text? (v : Value) : Option String := if v.isNull then none else some v.toText

def readBack? (v : Value) : Option String :=
  if v.isNull then none else (ArrayLiteral.contentOf v.toText.toList).map String.ofList

theorem elementForms_eq (vs : List Value) :
    elementForms vs = vs.map fun v => v.asElement v.toText.toList := by
  induction vs with
  | nil => rfl
  | cons v rest ih => rw [elementForms, ih, List.map_cons]

theorem writes_asElement {v : Value} (flat : v.isArray = false) :
    ArrayLiteral.Writes (v.asElement v.toText.toList)
      (if v.isNull then none else ArrayLiteral.contentOf v.toText.toList) := by
  cases v with
  | null => exact ArrayLiteral.writes_null
  | array element values => cases flat
  | _ => exact ArrayLiteral.writes_formatElement _

theorem parse_arrayLiteral {vs : List Value} (flat : ∀ v ∈ vs, v.isArray = false) :
    ArrayLiteral.parse (arrayLiteral vs) = .ok (vs.map readBack?) := by
  have written : Forall₂ ArrayLiteral.Writes (elementForms vs)
      (vs.map fun v => if v.isNull then none else ArrayLiteral.contentOf v.toText.toList) := by
    rw [elementForms_eq, List.forall₂_map_left_iff, List.forall₂_map_right_iff, List.forall₂_same]
    exact fun v mem => writes_asElement (flat v mem)
  rw [ArrayLiteral.parse, arrayLiteral, String.toList_ofList, ArrayLiteral.parseChars_brace written]
  simp only [Except.map, List.map_map]
  refine congrArg Except.ok (List.map_congr_left fun v _ => ?_)
  simp only [Function.comp_apply, readBack?]
  split <;> rfl

theorem readBack?_eq_iff (v : Value) : v.readBack? = v.text? ↔ (v.isNull = false →
    ArrayLiteral.needsQuotes v.toText.toList = true ∨
      Text.trim v.toText.toList = v.toText.toList) := by
  unfold readBack? text?
  cases null : v.isNull with
  | true => simp
  | false =>
    rw [← ArrayLiteral.contentOf_eq_iff]
    simp only [Bool.false_eq_true, if_false, true_imp_iff]
    cases ArrayLiteral.contentOf v.toText.toList with
    | none => simp
    | some cs => simp [← String.toList_inj]

/-- A flat array is always read back, nulls as nulls and everything else by its text, exactly if every
text that is left bare has no blanks at its ends. -/
theorem arrayLiteral_reads_back_iff {vs : List Value} (flat : ∀ v ∈ vs, v.isArray = false) :
    ArrayLiteral.parse (arrayLiteral vs) = .ok (vs.map readBack?) ∧
      (ArrayLiteral.parse (arrayLiteral vs) = .ok (vs.map text?) ↔
        ∀ v ∈ vs, v.isNull = false → ArrayLiteral.needsQuotes v.toText.toList = true ∨
          Text.trim v.toText.toList = v.toText.toList) := by
  refine ⟨parse_arrayLiteral flat, ?_⟩
  rw [parse_arrayLiteral flat, Except.ok.injEq, List.map_inj_left]
  exact forall₂_congr fun v _ => readBack?_eq_iff v

theorem arrayLiteral_reads_back_iff_quoted :
    let vs := [null, text "null", text "", text "\u00a0, \"\\", bytea [0, 255], text "é\u00a0é"]
    (∀ v ∈ vs, v.isArray = false) ∧
      (∀ v ∈ vs, v.isNull = false → ArrayLiteral.needsQuotes v.toText.toList = true ∨
        Text.trim v.toText.toList = v.toText.toList) ∧
      ArrayLiteral.parse (arrayLiteral vs) = .ok [none, some "null", some "",
        some "\u00a0, \"\\", some "\\x00ff", some "é\u00a0é"] := by
  intro vs
  have flat : ∀ v ∈ vs, v.isArray = false := by simp [vs, isArray]
  have kept : ∀ v ∈ vs, v.isNull = false → ArrayLiteral.needsQuotes v.toText.toList = true ∨
      Text.trim v.toText.toList = v.toText.toList := by decide
  exact ⟨flat, kept, (arrayLiteral_reads_back_iff flat).2.mpr kept⟩

/-- Blanks that are not ASCII, and the vertical tab, are not quoted, but they are trimmed: a text loses
them, or becomes a null. -/
theorem arrayLiteral_loses_blanks :
    let vs := [text "\x0bx", text "\u00a0NULL"]
    (∀ v ∈ vs, v.isArray = false) ∧ vs.map text? = [some "\x0bx", some "\u00a0NULL"] ∧
      arrayLiteral vs = "\x7b\x0bx,\u00a0NULL\x7d" ∧
      ArrayLiteral.parse (arrayLiteral vs) = .ok [some "x", none] := by
  decide

end Value

end PgPipeline
