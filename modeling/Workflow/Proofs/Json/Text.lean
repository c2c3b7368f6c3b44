import Mathlib.Data.List.Forall2
import Workflow.Json.Printer
import Workflow.Json.Reader

/-!
# Reading back a printed value

`ofText_pretty`: the indented text of a value is read as that value, but for its numbers. Strings
and layout are settled here, whatever they hold. What the text of a number is read as is a property
of the number, on which the text around it has no influence (`scans_numeral`).
-/

namespace Workflow.Json

/-- The text of the value is read as the value, to its end. -/
def ReadsBack (j : Json) : Prop :=
  Document.ofText (j.pretty 0) = ⟨j, true⟩

def isNumber : Json → Bool
  | int _ | float _ => true
  | _ => false

variable {c : Char} {cs cs' rest r : List Char} {ds : List Nat} {depth fuel k : Nat} {j j' : Json}

-- ---------------------------------------------------------------------------
-- White space
-- ---------------------------------------------------------------------------

theorem skipSpace_cons (h : isSpace c = false) : skipSpace (c :: cs) = c :: cs := by
  simp [skipSpace, h]

theorem skipSpace_append (h : skipSpace cs ≠ []) : skipSpace (cs ++ rest) = skipSpace cs ++ rest := by
  simp only [skipSpace] at h ⊢
  simp [List.dropWhile_append, h]

theorem skipSpace_append_of_nil (h : skipSpace cs = []) : skipSpace (cs ++ rest) = skipSpace rest := by
  simp only [skipSpace] at h ⊢
  simp [List.dropWhile_append, h]

theorem skipSpace_spaces (n : Nat) : skipSpace (List.replicate n ' ' ++ cs) = skipSpace cs := by
  induction n with
  | zero => rfl
  | succ n ih => simpa [skipSpace, List.replicate_succ, isSpace] using ih

theorem skipSpace_idem : skipSpace (skipSpace cs) = skipSpace cs := by
  induction cs with
  | nil => rfl
  | cons c cs ih =>
    cases h : isSpace c <;> simp_all [skipSpace]

/-- Space in front of a value does not count. -/
theorem scanValue_congr (h : skipSpace cs = skipSpace cs') :
    scanValue depth fuel cs = scanValue depth fuel cs' := by
  cases fuel with
  | zero => simp only [scanValue]
  | succ fuel => simp only [scanValue, h]

theorem scanItems_congr (h : skipSpace cs = skipSpace cs') :
    scanItems depth fuel cs = scanItems depth fuel cs' := by
  cases fuel with
  | zero => simp only [scanItems]
  | succ fuel => simp only [scanItems, scanValue_congr h]

theorem scanFields_congr (h : skipSpace cs = skipSpace cs') :
    scanFields depth fuel cs = scanFields depth fuel cs' := by
  cases fuel with
  | zero => simp only [scanFields]
  | succ fuel => simp only [scanFields, h]

-- ---------------------------------------------------------------------------
-- Numbers
-- ---------------------------------------------------------------------------

/-- No numeral goes on with this text. -/
def EndsNumeral (rest : List Char) : Prop :=
  ∀ c ∈ rest.head?, c.isDigit = false ∧ c ≠ '.' ∧ c ≠ 'e' ∧ c ≠ 'E'

/-- The text is read as the value wherever it stands inside `depth` containers, but for the space
behind it. -/
def Scans (depth : Nat) (text : List Char) (j : Json) : Prop :=
  ∀ fuel rest, 2 * text.length ≤ fuel → EndsNumeral rest →
    ∃ r, scanValue depth fuel (text ++ rest) = ⟨j, some r⟩ ∧ skipSpace r = skipSpace rest

theorem scanDigits_append (hr : EndsNumeral rest) :
    scanDigits (cs ++ rest) = ((scanDigits cs).1, (scanDigits cs).2 ++ rest) := by
  induction cs with
  | nil =>
    cases rest with
    | nil => rfl
    | cons c cs => simp [scanDigits, (hr c rfl).1]
  | cons c cs ih =>
    simp only [scanDigits, Prod.mk.injEq] at ih
    cases hc : c.isDigit <;> simp [scanDigits, hc, ih]

theorem scanWhole_append (hr : EndsNumeral rest) (h : scanWhole cs = some (ds, r)) :
    scanWhole (cs ++ rest) = some (ds, r ++ rest) := by
  simp only [scanWhole, scanDigits_append hr] at h ⊢
  generalize scanDigits cs = found at h ⊢
  rcases found with ⟨_ | ⟨_ | d, _ | ⟨e, ds'⟩⟩, r'⟩
  all_goals
    first
    | obtain ⟨rfl, rfl⟩ := Prod.mk.inj (Option.some.inj h)
      rfl
    | cases h

theorem scanFraction_none (h : ∀ c ∈ cs.head?, c ≠ '.') : scanFraction cs = some (none, cs) := by
  unfold scanFraction
  split
  · exact absurd rfl (h '.' rfl)
  · rfl

theorem scanFraction_append {fraction : Option (List Nat)} (hr : EndsNumeral rest)
    (h : scanFraction cs = some (fraction, r)) :
    scanFraction (cs ++ rest) = some (fraction, r ++ rest) := by
  cases cs with
  | nil =>
    cases h
    exact scanFraction_none fun c hc => (hr c hc).2.1
  | cons c cs =>
    by_cases hc : c = '.'
    · subst hc
      simp only [scanFraction, List.cons_append, scanDigits_append hr] at h ⊢
      generalize scanDigits cs = found at h ⊢
      rcases found with ⟨_ | ⟨d, ds'⟩, r'⟩ <;> simp_all
    · rw [scanFraction_none (by simpa using hc)] at h
      rw [scanFraction_none (by simpa using hc)]
      cases h
      rfl

theorem scanPower_append {negative : Bool} {power : Option Int} (hr : EndsNumeral rest)
    (h : scanPower negative cs = some (power, r)) :
    scanPower negative (cs ++ rest) = some (power, r ++ rest) := by
  simp only [scanPower, scanDigits_append hr] at h ⊢
  generalize scanDigits cs = found at h ⊢
  rcases found with ⟨_ | ⟨d, ds'⟩, r'⟩ <;> simp_all

theorem scanExponent_none (h : ∀ c ∈ cs.head?, c ≠ 'e' ∧ c ≠ 'E') :
    scanExponent cs = some (none, cs) := by
  cases cs with
  | nil => rfl
  | cons c cs => simp_all [scanExponent]

theorem scanExponent_append {power : Option Int} (hr : EndsNumeral rest)
    (h : scanExponent cs = some (power, r)) :
    scanExponent (cs ++ rest) = some (power, r ++ rest) := by
  cases cs with
  | nil =>
    cases h
    exact scanExponent_none fun c hc => (hr c hc).2.2
  | cons c cs =>
    by_cases hc : c = 'e' ∨ c = 'E'
    · have he : (c == 'e' || c == 'E') = true := by simpa using hc
      simp only [scanExponent, List.cons_append, he, if_true] at h ⊢
      split at h
      · exact scanPower_append hr h
      · exact scanPower_append hr h
      · rename_i hplus hminus
        -- a sign cannot come up behind an exponent without digits
        cases cs with
        | nil => simp [scanPower, scanDigits] at h
        | cons c' cs =>
          have hpower := scanPower_append hr h
          split
          · simp_all
          · simp_all
          · exact hpower
    · have hc' : ∀ d ∈ (c :: cs).head?, d ≠ 'e' ∧ d ≠ 'E' := by simpa [not_or] using hc
      rw [scanExponent_none hc'] at h
      rw [scanExponent_none (by simpa using hc')]
      cases h
      rfl

theorem scanNumeral_append {negative : Bool} {n : Decimal.Numeral} (hr : EndsNumeral rest)
    (h : scanNumeral negative cs = some (n, r)) :
    scanNumeral negative (cs ++ rest) = some (n, r ++ rest) := by
  simp only [scanNumeral, Option.bind_eq_bind, Option.bind_eq_some_iff, Prod.exists] at h ⊢
  obtain ⟨whole, cs₁, hw, fraction, cs₂, hf, power, cs₃, hp, h⟩ := h
  obtain ⟨rfl, rfl⟩ := Prod.mk.inj (Option.some.inj h)
  exact ⟨_, _, scanWhole_append hr hw, _, _, scanFraction_append hr hf, _, _,
    scanExponent_append hr hp, rfl⟩

theorem scanNumeral_head {negative : Bool} {n : Decimal.Numeral}
    (h : scanNumeral negative cs = some (n, r)) : ∃ c cs', cs = c :: cs' ∧ c.isDigit := by
  cases cs with
  | nil => simp [scanNumeral, scanWhole, scanDigits] at h
  | cons c cs =>
    cases hc : c.isDigit with
    | true => exact ⟨c, cs, rfl, hc⟩
    | false => simp [scanNumeral, scanWhole, scanDigits, hc] at h

theorem scanValue_minus : scanValue depth (fuel + 1) ('-' :: cs) = scanNumber true cs := rfl

theorem isSpace_of_isDigit (hc : c.isDigit) : isSpace c = false := by
  cases h : isSpace c with
  | false => rfl
  | true =>
    simp only [isSpace, Bool.or_eq_true, beq_iff_eq] at h
    rcases h with ((rfl | rfl) | rfl) | rfl <;> contradiction

theorem scanValue_digit (hc : c.isDigit) :
    scanValue depth (fuel + 1) (c :: cs) = scanNumber false (c :: cs) := by
  simp only [scanValue, skipSpace_cons (isSpace_of_isDigit hc)]
  split <;> first | rfl | (rename_i heq; cases heq; contradiction)

theorem scanNumber_number {negative : Bool} (h : (scanNumber negative cs).value.isNumber) :
    ∃ n r, scanNumeral negative cs = some (n, r) ∧
      scanNumber negative cs = ⟨ofNumeral n, some r⟩ := by
  simp only [scanNumber] at h ⊢
  split at h
  · rename_i n r hn
    exact ⟨n, r, hn, rfl⟩
  · cases h

theorem isNumber_ofPieces (ps : List Piece) : (ofPieces ps).isNumber = false := by
  simp only [ofPieces]
  split <;> rfl

theorem isNumber_limitDepth (h : j.isNumber = false) : (limitDepth depth j).isNumber = false := by
  simp only [limitDepth]
  split
  · exact h
  · rfl

/-- A scan that gives a number has read a numeral, behind spaces and maybe a sign. -/
theorem scanValue_number (h : (scanValue depth fuel cs).value.isNumber) :
    ∃ negative digits n r, skipSpace cs = (if negative then '-' :: digits else digits) ∧
      scanNumeral negative digits = some (n, r) ∧
      scanValue depth fuel cs = ⟨ofNumeral n, some r⟩ := by
  cases fuel with
  | zero => cases h
  | succ fuel =>
    simp only [scanValue] at h ⊢
    split at h
    case h_1 | h_2 | h_3 => cases h
    case h_4 =>
      split at h
      · simp [isNumber_ofPieces] at h
      · cases h
    case h_5 | h_6 =>
      rw [isNumber_limitDepth rfl] at h
      cases h
    case h_7 digits hsign =>
      obtain ⟨n, r, hn, hscan⟩ := scanNumber_number h
      exact ⟨true, digits, n, r, hsign, hn, hscan⟩
    case h_8 =>
      obtain ⟨n, r, hn, hscan⟩ := scanNumber_number h
      exact ⟨false, _, n, r, rfl, hn, hscan⟩

/-- A number is read the same way wherever its text stands. -/
theorem scans_numeral {t : String} (h : Document.ofText t = ⟨j, true⟩) (hj : j.isNumber) :
    Scans depth t.toList j := by
  simp only [Document.ofText, Document.mk.injEq] at h
  obtain ⟨hvalue, hended⟩ := h
  obtain ⟨negative, digits, n, r, hskip, hn, hscan⟩ := scanValue_number (hvalue ▸ hj)
  simp only [hscan, Option.any_some, List.isEmpty_iff] at hvalue hended
  obtain ⟨c, cs, rfl, hc⟩ := scanNumeral_head hn
  have hne : skipSpace t.toList ≠ [] := by
    rw [hskip]
    cases negative <;> simp
  have hpos : 0 < t.toList.length := by
    rw [List.length_pos_iff]
    intro hnil
    exact hne (by rw [hnil]; rfl)
  intro fuel rest hfuel hr
  obtain ⟨fuel, rfl⟩ : ∃ f, fuel = f + 1 := ⟨fuel - 1, by omega⟩
  refine ⟨r ++ rest, ?_, skipSpace_append_of_nil hended⟩
  have happend := scanNumeral_append hr hn
  cases negative with
  | true =>
    have hcs : skipSpace (t.toList ++ rest) = skipSpace ('-' :: (c :: cs ++ rest)) := by
      rw [skipSpace_append hne, hskip]
      rfl
    rw [scanValue_congr hcs, scanValue_minus, scanNumber, happend]
    simp only [hvalue]
  | false =>
    have hcs : skipSpace (t.toList ++ rest) = skipSpace (c :: (cs ++ rest)) := by
      rw [skipSpace_append hne, hskip, skipSpace_cons (isSpace_of_isDigit hc)]
      rfl
    rw [scanValue_congr hcs, scanValue_digit hc, scanNumber, ← List.cons_append, happend]
    simp only [hvalue]

-- ---------------------------------------------------------------------------
-- Strings
-- ---------------------------------------------------------------------------

theorem scanString_noUnit {acc : List Piece} {a b c d : Char} (h : hexUnit? a b c d = none) :
    scanString acc ('\\' :: 'u' :: a :: b :: c :: d :: cs) = none := by
  by_cases hcs : ∃ a' b' c' d' cs', cs = '\\' :: 'u' :: a' :: b' :: c' :: d' :: cs'
  · obtain ⟨a', b', c', d', cs, rfl⟩ := hcs
    simp only [scanString, h]
  · rw [scanString, h]
    simpa using hcs

/-- An escaped character that is no half of a surrogate pair is read by itself, whatever follows. -/
theorem scanString_unit {acc : List Piece} {a b c d : Char} {u : Nat} (h : hexUnit? a b c d = some u)
    (hu : u < 0xD800) : scanString acc ('\\' :: 'u' :: a :: b :: c :: d :: cs) =
      scanString (.char (Char.ofNat u) :: acc) cs := by
  have hhigh : isHighSurrogate u = false := by
    rw [isHighSurrogate, decide_eq_false (by omega), Bool.false_and]
  have hlow : isLowSurrogate u = false := by
    rw [isLowSurrogate, decide_eq_false (by omega), Bool.false_and]
  by_cases hcs : ∃ a' b' c' d' cs', cs = '\\' :: 'u' :: a' :: b' :: c' :: d' :: cs'
  · obtain ⟨a', b', c', d', cs, rfl⟩ := hcs
    rw [scanString, h]
    cases h' : hexUnit? a' b' c' d' with
    | none => rw [scanString_noUnit h']
    | some v => simp [hhigh, hlow]
  · rw [scanString, h]
    · simp [hhigh, hlow]
    · simpa using hcs

theorem scanString_simple {acc : List Piece} {e : Char} (hc : c ≠ 'u') (h : simpleEscape? c = some e) :
    scanString acc ('\\' :: c :: cs) = scanString (.char e :: acc) cs := by
  rw [scanString, h]
  · simp [hc]
  · simp [hc]

theorem scanString_raw {acc : List Piece} (hq : c ≠ '"') (hb : c ≠ '\\') (hc : ¬c.toNat < 0x20) :
    scanString acc (c :: cs) = scanString (.char c :: acc) cs := by
  rw [scanString, if_neg hc]
  all_goals simp [hq, hb]

/-- The four digits of a control character. -/
theorem hexUnit_control (n : Nat) (hn : n < 0x20) : ∃ a b c d,
    List.replicate (4 - (Text.hex n).length) '0' ++ Text.hex n = [a, b, c, d] ∧
      hexUnit? a b c d = some n :=
  ⟨'0', '0', (n / 16).digitChar, (n % 16).digitChar, by decide +revert, by decide +revert⟩

/-- An escaped character is read as the character, whatever follows. -/
theorem scanString_escapeChar {acc : List Piece} :
    scanString acc (escapeChar c ++ cs) = scanString (.char c :: acc) cs := by
  by_cases hletter : c ∈ ['"', '\\', '\n', '\t', '\r', '\x08', '\x0c']
  · simp only [List.mem_cons, List.not_mem_nil, or_false] at hletter
    rcases hletter with rfl | rfl | rfl | rfl | rfl | rfl | rfl
    all_goals exact scanString_simple (by decide) rfl
  · simp only [List.mem_cons, List.not_mem_nil, or_false, not_or] at hletter
    obtain ⟨hq, hb, hn, ht, hr, hbs, hff⟩ := hletter
    by_cases hc : c.toNat < 0x20
    · obtain ⟨w, x, y, z, hdigits, hunit⟩ := hexUnit_control _ hc
      have hescape : escapeChar c = ['\\', 'u', w, x, y, z] := by
        simp [escapeChar, hq, hb, hn, ht, hr, hbs, hff, hc, ← hdigits]
      rw [hescape]
      have hscan : scanString acc ('\\' :: 'u' :: w :: x :: y :: z :: cs) = _ :=
        scanString_unit hunit (by omega)
      rwa [Char.ofNat_toNat] at hscan
    · have hescape : escapeChar c = [c] := by
        simp [escapeChar, hq, hb, hn, ht, hr, hbs, hff, hc]
      rw [hescape]
      exact scanString_raw hq hb hc

theorem scanString_flatMap {acc : List Piece} (s : List Char) :
    scanString acc (s.flatMap escapeChar ++ '"' :: cs) = some (acc.reverse ++ s.map .char, cs) := by
  induction s generalizing acc with
  | nil => simp [scanString]
  | cons c s ih =>
    rw [List.flatMap_cons, List.append_assoc, scanString_escapeChar, ih]
    simp

/-- The pieces of a printed string. -/
theorem scanString_stringText (s : String) : ∃ inside, (stringText s).toList = '"' :: inside ∧
    ∀ cs, scanString [] (inside ++ cs) = some (s.toList.map .char, cs) := by
  refine ⟨s.toList.flatMap escapeChar ++ ['"'], by simp [stringText], fun cs => ?_⟩
  have hscan : scanString [] (s.toList.flatMap escapeChar ++ '"' :: cs) = _ := scanString_flatMap s.toList
  simpa using hscan

theorem ofPieces_chars (s : String) : ofPieces (s.toList.map .char) = .str s := by
  have hchars : (s.toList.map Piece.char).filterMap Piece.char? = s.toList := by
    simp [List.filterMap_map, Function.comp_def, Piece.char?]
  simp [ofPieces, hchars]

theorem ofKey_chars (s : String) : ofKey (s.toList.map .char) j = (s, j) := by
  have hchars : (s.toList.map Piece.char).filterMap Piece.char? = s.toList := by
    simp [List.filterMap_map, Function.comp_def, Piece.char?]
  simp [ofKey, hchars]

theorem scans_stringText (s : String) : Scans depth (stringText s).toList (.str s) := by
  obtain ⟨inside, htext, hscan⟩ := scanString_stringText s
  intro fuel rest hfuel _
  rw [htext, List.length_cons] at hfuel
  obtain ⟨fuel, rfl⟩ : ∃ f, fuel = f + 1 := ⟨fuel - 1, by omega⟩
  refine ⟨rest, ?_, rfl⟩
  rw [htext, List.cons_append]
  simp only [scanValue, skipSpace_cons (show isSpace '"' = false by decide), hscan, ofPieces_chars]

-- ---------------------------------------------------------------------------
-- Containers
-- ---------------------------------------------------------------------------

/-- The lines between the brackets of a container, each behind `k` spaces. -/
def body (k : Nat) (lines : List (List Char)) : List Char :=
  [',', '\n'].intercalate (lines.map (List.replicate k ' ' ++ ·))

theorem body_singleton (k : Nat) (line : List Char) : body k [line] = List.replicate k ' ' ++ line := by
  simp [body]

theorem body_cons (k : Nat) (line line' : List Char) (lines : List (List Char)) :
    body k (line :: line' :: lines) =
      List.replicate k ' ' ++ line ++ ',' :: '\n' :: body k (line' :: lines) := by
  simp [body]

theorem block_toList {opening closing : String} {lines : List String} (d : Nat) (h : lines ≠ []) :
    (block opening closing d lines).toList = opening.toList ++ '\n' ::
      (body (2 * (d + 1)) (lines.map String.toList) ++
        '\n' :: (List.replicate (2 * d) ' ' ++ closing.toList)) := by
  simp [block, h, body, Function.comp_def]

/-- The line of a field: its key, and a text that is read as its value. -/
def ScansField (depth : Nat) (line : List Char) (f : String × Json) : Prop :=
  ∃ text, line = (stringText f.1).toList ++ ':' :: ' ' :: text ∧ Scans depth text f.2

variable {lines : List (List Char)} {items : List Json} {fields : List (String × Json)} {n : Nat}

theorem endsNumeral_comma : EndsNumeral (',' :: cs) := by simp [EndsNumeral]

theorem endsNumeral_newline : EndsNumeral ('\n' :: cs) := by simp [EndsNumeral]

theorem skipSpace_newline : skipSpace ('\n' :: cs) = skipSpace cs := rfl

theorem skipSpace_closing (h : isSpace c = false) :
    skipSpace ('\n' :: (List.replicate n ' ' ++ c :: cs)) = c :: cs := by
  rw [skipSpace_newline, skipSpace_spaces, skipSpace_cons h]

theorem scanItems_body (h : List.Forall₂ (Scans depth) lines items) (hne : lines ≠ [])
    (hfuel : 2 * (body k lines).length + 1 ≤ fuel) :
    scanItems depth fuel (body k lines ++ '\n' :: (List.replicate n ' ' ++ ']' :: rest)) =
      (items, some rest) := by
  induction h generalizing fuel with
  | nil => contradiction
  | @cons line item lines items hitem hitems ih =>
    -- what stands behind a line is the next one or the closing bracket, and ends a numeral
    cases lines with
    | nil =>
      cases hitems
      rw [body_singleton] at hfuel ⊢
      simp only [List.length_append] at hfuel
      obtain ⟨fuel, rfl⟩ : ∃ f, fuel = f + 1 := ⟨fuel - 1, by omega⟩
      obtain ⟨r, hscan, hr⟩ := hitem fuel ('\n' :: (List.replicate n ' ' ++ ']' :: rest))
        (by omega) endsNumeral_newline
      rw [skipSpace_closing (by decide)] at hr
      rw [List.append_assoc]
      simp only [scanItems, scanValue_congr (skipSpace_spaces k), hscan, Option.map_some, hr]
    | cons line' lines =>
      rw [body_cons] at hfuel ⊢
      simp only [List.length_append, List.length_cons] at hfuel
      obtain ⟨fuel, rfl⟩ : ∃ f, fuel = f + 1 := ⟨fuel - 1, by omega⟩
      have hrest := @ih fuel (by simp) (by omega)
      obtain ⟨r, hscan, hr⟩ := hitem fuel (',' :: '\n' :: (body k (line' :: lines) ++
        '\n' :: (List.replicate n ' ' ++ ']' :: rest))) (by omega) endsNumeral_comma
      rw [skipSpace_cons (by decide)] at hr
      simp only [List.append_assoc, List.cons_append, scanItems, scanValue_congr (skipSpace_spaces k),
        hscan, Option.map_some, hr, scanItems_congr skipSpace_newline, hrest]

/-- A line of an object is read as its field; what comes next decides how to go on. -/
theorem scanFields_line {f : String × Json} {line : List Char} (h : ScansField depth line f)
    (hfuel : 2 * line.length ≤ fuel) (hr : EndsNumeral rest) :
    scanFields depth (fuel + 1) (List.replicate k ' ' ++ line ++ rest) =
      match skipSpace rest with
      | ',' :: cs => (f :: (scanFields depth fuel cs).1, (scanFields depth fuel cs).2)
      | '\x7d' :: cs => ([f], some cs)
      | _ => ([f, noField], none) := by
  obtain ⟨text, rfl, hvalue⟩ := h
  obtain ⟨inside, htext, hkey⟩ := scanString_stringText f.1
  rw [htext] at hfuel ⊢
  simp only [List.length_append, List.length_cons] at hfuel
  obtain ⟨r, hscan, hskip⟩ := hvalue fuel rest (by omega) hr
  have hspace : skipSpace (' ' :: (text ++ rest)) = skipSpace (text ++ rest) := rfl
  simp only [List.append_assoc, List.cons_append, scanFields, skipSpace_spaces,
    skipSpace_cons (show isSpace '"' = false by decide), hkey,
    skipSpace_cons (show isSpace ':' = false by decide), scanValue_congr hspace, hscan, ofKey_chars,
    Option.map_some, hskip]
  split <;> simp_all

theorem scanFields_body (h : List.Forall₂ (ScansField depth) lines fields) (hne : lines ≠ [])
    (hfuel : 2 * (body k lines).length + 1 ≤ fuel) :
    scanFields depth fuel (body k lines ++ '\n' :: (List.replicate n ' ' ++ '\x7d' :: rest)) =
      (fields, some rest) := by
  induction h generalizing fuel with
  | nil => contradiction
  | @cons line f lines fields hfield hfields ih =>
    cases lines with
    | nil =>
      cases hfields
      rw [body_singleton] at hfuel ⊢
      simp only [List.length_append] at hfuel
      obtain ⟨fuel, rfl⟩ : ∃ g, fuel = g + 1 := ⟨fuel - 1, by omega⟩
      rw [scanFields_line hfield (by omega) endsNumeral_newline, skipSpace_closing (by decide)]
      rfl
    | cons line' lines =>
      rw [body_cons] at hfuel ⊢
      simp only [List.length_append, List.length_cons] at hfuel
      obtain ⟨fuel, rfl⟩ : ∃ g, fuel = g + 1 := ⟨fuel - 1, by omega⟩
      have hrest := @ih fuel (by simp) (by omega)
      rw [List.append_assoc, List.cons_append, List.cons_append,
        scanFields_line hfield (by omega) endsNumeral_comma, skipSpace_cons (by decide)]
      simp only [scanFields_congr skipSpace_newline, hrest]

/-- No value starts with a closing bracket. -/
theorem scanItems_closing (h : skipSpace cs = ']' :: cs') : (scanItems depth fuel cs).2 = none := by
  have hstop : ∀ fuel, scanValue depth fuel cs = .stop
    | 0 => rfl
    | fuel + 1 => by
      simp only [scanValue, h]
      rfl
  cases fuel with
  | zero => rfl
  | succ fuel =>
    simp only [scanItems, hstop]
    rfl

theorem scanFields_closing (h : skipSpace cs = '\x7d' :: cs') :
    (scanFields depth fuel cs).2 = none := by
  cases fuel with
  | zero => rfl
  | succ fuel =>
    simp only [scanFields, h]
    rfl

theorem scanValue_arr (hd : depth < depthLimit) (h : scanItems (depth + 1) fuel cs = (items, some rest)) :
    scanValue depth (fuel + 1) ('[' :: cs) = ⟨arr items, some rest⟩ := by
  simp only [scanValue, skipSpace_cons (show isSpace '[' = false by decide), limitDepth, hd, if_true]
  -- a bracket that closes at once is looked for first, and cannot be there
  split
  · rename_i cs' hcs
    have hnone : (scanItems (depth + 1) fuel cs).2 = none := scanItems_closing hcs
    simp [h] at hnone
  · simp only [scanItems_congr skipSpace_idem, h]

theorem scanValue_obj (hd : depth < depthLimit)
    (h : scanFields (depth + 1) fuel cs = (fields, some rest)) :
    scanValue depth (fuel + 1) ('\x7b' :: cs) = ⟨obj fields, some rest⟩ := by
  simp only [scanValue, skipSpace_cons (show isSpace '\x7b' = false by decide), limitDepth, hd, if_true]
  split
  · rename_i cs' hcs
    have hnone : (scanFields (depth + 1) fuel cs).2 = none := scanFields_closing hcs
    simp [h] at hnone
  · simp only [scanFields_congr skipSpace_idem, h]

theorem scans_block_arr {lines : List String} {d : Nat} (hd : depth < depthLimit)
    (h : List.Forall₂ (Scans (depth + 1)) (lines.map String.toList) items) :
    Scans depth (block "[" "]" d lines).toList (arr items) := by
  intro fuel rest hfuel _
  by_cases hlines : lines = []
  · subst hlines
    cases h
    obtain ⟨fuel, rfl⟩ : ∃ f, fuel = f + 1 := ⟨fuel - 1, by simp [block] at hfuel; omega⟩
    refine ⟨rest, ?_, rfl⟩
    simp [block, scanValue, skipSpace, isSpace, limitDepth, hd]
  · have hne : lines.map String.toList ≠ [] := by simpa using hlines
    rw [block_toList d hlines] at hfuel ⊢
    simp only [List.length_append, List.length_cons] at hfuel
    obtain ⟨fuel, rfl⟩ : ∃ f, fuel = f + 1 := ⟨fuel - 1, by omega⟩
    have hitems : scanItems (depth + 1) fuel (body (2 * (d + 1)) (lines.map String.toList) ++
        '\n' :: (List.replicate (2 * d) ' ' ++ ']' :: rest)) = (items, some rest) :=
      scanItems_body h hne (by omega)
    rw [← scanItems_congr skipSpace_newline] at hitems
    refine ⟨rest, ?_, rfl⟩
    simpa using scanValue_arr hd hitems

theorem scans_block_obj {lines : List String} {d : Nat} (hd : depth < depthLimit)
    (h : List.Forall₂ (ScansField (depth + 1)) (lines.map String.toList) fields) :
    Scans depth (block "\x7b" "\x7d" d lines).toList (obj fields) := by
  intro fuel rest hfuel _
  by_cases hlines : lines = []
  · subst hlines
    cases h
    obtain ⟨fuel, rfl⟩ : ∃ f, fuel = f + 1 := ⟨fuel - 1, by simp [block] at hfuel; omega⟩
    refine ⟨rest, ?_, rfl⟩
    simp [block, scanValue, skipSpace, isSpace, limitDepth, hd]
  · have hne : lines.map String.toList ≠ [] := by simpa using hlines
    rw [block_toList d hlines] at hfuel ⊢
    simp only [List.length_append, List.length_cons] at hfuel
    obtain ⟨fuel, rfl⟩ : ∃ f, fuel = f + 1 := ⟨fuel - 1, by omega⟩
    have hfields : scanFields (depth + 1) fuel (body (2 * (d + 1)) (lines.map String.toList) ++
        '\n' :: (List.replicate (2 * d) ' ' ++ '\x7d' :: rest)) = (fields, some rest) :=
      scanFields_body h hne (by omega)
    rw [← scanFields_congr skipSpace_newline] at hfields
    refine ⟨rest, ?_, rfl⟩
    simpa using scanValue_obj hd hfields

-- ---------------------------------------------------------------------------
-- Whole values
-- ---------------------------------------------------------------------------

/-- The text of the first value is read as the second one, wherever there is room for `k` containers
in one another. -/
def ReadsAs (j j' : Json) (k : Nat) : Prop :=
  ∀ d depth, depth + k ≤ depthLimit → Scans depth (j.pretty d).toList j'

theorem str_readsAs {s : String} : (str s).ReadsAs (str s) k := fun _ _ _ => scans_stringText s

theorem float_readsAs {x : Float} (h : Document.ofText ((float x).pretty 0) = ⟨j, true⟩)
    (hj : j.isNumber) : (float x).ReadsAs j k :=
  fun _ _ _ => scans_numeral h hj

theorem arr_readsAs {items items' : List Json} (h : List.Forall₂ (ReadsAs · · k) items items') :
    (arr items).ReadsAs (arr items') (k + 1) := by
  intro d depth hd
  refine scans_block_arr (by omega) ?_
  induction h with
  | nil => exact .nil
  | cons hitem _ ih => exact .cons (hitem _ _ (by omega)) ih

theorem obj_readsAs {fields fields' : List (String × Json)}
    (h : List.Forall₂ (fun f f' => f.1 = f'.1 ∧ f.2.ReadsAs f'.2 k) fields fields') :
    (obj fields).ReadsAs (obj fields') (k + 1) := by
  intro d depth hd
  refine scans_block_obj (by omega) ?_
  induction h with
  | nil => exact .nil
  | @cons f f' fields fields' hfield _ ih =>
    obtain ⟨hkey, hvalue⟩ := hfield
    refine .cons ⟨(f.2.pretty (d + 1)).toList, ?_, hvalue _ _ (by omega)⟩ ih
    simp [hkey]

/-- Nothing of the text is left when the value is read. -/
theorem ofText_pretty (h : j.ReadsAs j' depthLimit) :
    Document.ofText (j.pretty 0) = ⟨j', true⟩ := by
  obtain ⟨r, hscan, hr⟩ := h 0 0 (Nat.le_of_eq (Nat.zero_add _))
    (2 * (j.pretty 0).toList.length + 2) [] (by omega) (by simp [EndsNumeral])
  rw [List.append_nil] at hscan
  simp only [Document.ofText, hscan, Option.any_some, hr]
  rfl

theorem ofText_numeral {x y : Float} (text : String) (n : Decimal.Numeral)
    (htext : (float x).pretty 0 = text) (hdoc : Document.ofText text = ⟨ofNumeral n, true⟩)
    (hint : n.toInt? = none) (hfloat : n.toFloat? = some y) :
    Document.ofText ((float x).pretty 0) = ⟨float y, true⟩ := by
  rw [htext, hdoc, ofNumeral, hint, hfloat]

/-- One half is a number that is read back. -/
theorem readsBack_half : (float 0.5).ReadsBack :=
  ofText_numeral "0.5" ⟨false, [0], some [5], none⟩ (by decide +kernel) rfl rfl (by decide +kernel)

end Workflow.Json
