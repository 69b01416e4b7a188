import RelSchema.Json.Printer
import RelSchema.Json.Reader
import RelSchema.Proofs.Decoding

/-!
# Reading written strings and numbers back

Every part of the reader takes the text of what it reads from the front and leaves what follows. A
string is ended by its quote. A number is left by the first character that cannot belong to it, so
what follows a number has to begin with such a character, or be nothing at all.
-/

namespace RelSchema

namespace Json

/-! ## Strings -/

/-- One character in front of the rest of a string. -/
theorem stringCodes_escapeChar (c : Char) {cs rest : List Char} {codes : List Nat}
    (h : stringCodes cs = some (codes, rest)) :
    stringCodes (escapeChar c ++ cs) = some (c.toNat :: codes, rest) := by
  unfold escapeChar
  by_cases hquote : c = '"'
  · subst hquote; simp [stringCodes, escaped?, h]
  by_cases hbackslash : c = '\\'
  · subst hbackslash; simp [stringCodes, escaped?, h]
  by_cases hline : c = '\n'
  · subst hline; simp [stringCodes, escaped?, h]
  by_cases hreturn : c = '\r'
  · subst hreturn; simp [stringCodes, escaped?, h]
  by_cases htab : c = '\t'
  · subst htab; simp [stringCodes, escaped?, h]
  by_cases h8 : c.toNat = 8
  · simp [hquote, hbackslash, hline, hreturn, htab, h8, stringCodes, escaped?, h]
  by_cases h12 : c.toNat = 12
  · simp [hquote, hbackslash, hline, hreturn, htab, h12, stringCodes, escaped?, h]
  by_cases hcontrol : c.toNat < 32
  · have hall := Text.all_isHexDigit_fourHexDigits Text.digitValue?_lowerHexDigit c.toNat
    have hcode := Text.ofDigits_fourHexDigits Text.digitValue?_lowerHexDigit
      (show c.toNat < 65536 by omega)
    simp only [hquote, hbackslash, hline, hreturn, htab, h8, h12, hcontrol, if_false, if_true]
    unfold Text.fourHexDigits at hall hcode ⊢
    simp only [List.cons_append, List.nil_append, stringCodes, hall, if_true, hcode, h,
      Option.map_some]
  · simp [hquote, hbackslash, hline, hreturn, htab, h8, h12, hcontrol, stringCodes, h]

theorem stringCodes_escaped (cs rest : List Char) :
    stringCodes (cs.flatMap escapeChar ++ '"' :: rest) = some (cs.map Char.toNat, rest) := by
  induction cs with
  | nil => simp [stringCodes]
  | cons c cs ih =>
    rw [List.flatMap_cons, List.append_assoc]
    exact stringCodes_escapeChar c ih

/-- A character is no half of a surrogate pair. -/
theorem not_surrogate (c : Char) :
    isLeadingSurrogate c.toNat = false ∧ isTrailingSurrogate c.toNat = false := by
  have hvalid := c.valid
  simp only [UInt32.isValidChar, Nat.isValidChar] at hvalid
  have hval : c.toNat = c.val.toNat := rfl
  simp only [isLeadingSurrogate, isTrailingSurrogate, Bool.and_eq_false_iff, decide_eq_false_iff_not]
  omega

theorem ofCodes?_map_toNat (cs : List Char) : ofCodes? (cs.map Char.toNat) = some cs := by
  induction cs with
  | nil => rfl
  | cons c cs ih =>
    obtain ⟨hleading, htrailing⟩ := not_surrogate c
    cases cs with
    | nil => simp [ofCodes?, hleading, htrailing]
    | cons next cs =>
      simp only [List.map_cons] at ih ⊢
      simp [ofCodes?, hleading, htrailing, ih]

theorem stringText_escaped (s : String) (rest : List Char) :
    stringText (s.toList.flatMap escapeChar ++ '"' :: rest) = some (some s, rest) := by
  simp [stringText, stringCodes_escaped, ofCodes?_map_toNat, String.ofList_toList]

/-! ## Numbers -/

/-- Whether a number that stands in front of this text ends there. -/
def EndsNumber (rest : List Char) : Prop :=
  ∀ c ∈ rest.head?, c.isDigit = false ∧ c ≠ '.' ∧ c ≠ 'e' ∧ c ≠ 'E'

theorem endsNumber_nil : EndsNumber [] := by simp [EndsNumber]

/-- The digits in front are those up to the first character that is none. -/
theorem someDigits_append {digits rest : List Char} (hne : digits ≠ [])
    (hdigits : ∀ c ∈ digits, c.isDigit = true) (hrest : ∀ c ∈ rest.head?, c.isDigit = false) :
    someDigits (digits ++ rest) = some (digits, rest) := by
  unfold someDigits
  rw [span_append hdigits hrest]
  cases digits with
  | nil => exact absurd rfl hne
  | cons c digits => rfl

theorem toList_toString (n : Nat) : (toString n).toList = Nat.toDigits 10 n := by
  rw [Nat.toString_eq_repr, Nat.toList_repr]

theorem someDigits_toString (n : Nat) {rest : List Char}
    (hrest : ∀ c ∈ rest.head?, c.isDigit = false) :
    someDigits ((toString n).toList ++ rest) = some (Nat.toDigits 10 n, rest) := by
  rw [toList_toString]
  exact someDigits_append Nat.toDigits_ne_nil (fun _ => Text.isDigit_of_mem_toDigits) hrest

theorem wholePart_toString (n : Nat) {rest : List Char}
    (hrest : ∀ c ∈ rest.head?, c.isDigit = false) :
    wholePart ((toString n).toList ++ rest) = some (n, rest) := by
  unfold wholePart
  rw [someDigits_toString n hrest]
  have hvalue := Text.ofDigits_toDigits n
  cases hdigits : Nat.toDigits 10 n with
  | nil => exact absurd hdigits Nat.toDigits_ne_nil
  | cons c digits =>
    rw [hdigits] at hvalue
    split
    · contradiction
    · -- a second digit after a zero would be a number with a zero in front
      rename_i heq
      simp only [Option.some.injEq, Prod.mk.injEq, List.cons.injEq] at heq
      obtain ⟨⟨rfl, rfl⟩, -⟩ := heq
      have hpos : 0 < n := by
        rcases Nat.eq_zero_or_pos n with rfl | hpos
        · simp at hdigits
        · exact hpos
      exact absurd (by rw [hdigits]; rfl) (Text.head?_toDigits_ne hpos)
    · rename_i heq
      simp only [Option.some.injEq, Prod.mk.injEq] at heq
      obtain ⟨rfl, rfl⟩ := heq
      rw [hvalue]

/-- The point and the digits behind it, if there are any. -/
def fractionText (digits : List Nat) : List Char :=
  if digits.isEmpty then [] else '.' :: digits.map Nat.digitChar

def exponentText (exponent : Option Int) : List Char :=
  exponent.elim [] fun e => 'e' :: (toString e).toList

theorem Number.text_eq (n : Number) :
    n.text = (if n.negative then ['-'] else []) ++
      ((toString n.whole).toList ++ (fractionText n.fraction ++ exponentText n.exponent)) := by
  unfold Number.text fractionText exponentText
  cases n.exponent <;> simp only [Option.elim, List.append_assoc]

theorem fractionPart_fractionText {fraction : List Nat} (hdigits : ∀ d ∈ fraction, d < 10)
    {rest : List Char} (hrest : ∀ c ∈ rest.head?, c.isDigit = false ∧ c ≠ '.') :
    fractionPart (fractionText fraction ++ rest) = some (fraction, rest) := by
  cases fraction with
  | nil =>
    simp only [fractionText, List.isEmpty_nil, if_true, List.nil_append]
    unfold fractionPart
    split
    · exact absurd rfl (hrest '.' rfl).2
    · rfl
  | cons first more =>
    have hchars : ∀ c ∈ (first :: more).map Nat.digitChar, c.isDigit = true := by
      intro c hc
      obtain ⟨d, hd, rfl⟩ := List.mem_map.1 hc
      exact Text.isDigit_digitChar d (hdigits d hd)
    have hback : ((first :: more).map Nat.digitChar).map (fun c => Text.ofDigits 10 [c]) =
        first :: more := by
      rw [List.map_map]
      exact (List.map_congr_left fun d hd => Text.ofDigits_digitChar d (hdigits d hd)).trans
        (List.map_id _)
    have hsome := someDigits_append (by simp) hchars fun c hc => (hrest c hc).1
    simp only [fractionText, List.isEmpty_cons, Bool.false_eq_true, if_false, List.cons_append,
      fractionPart]
    rw [hsome, Option.map_some, hback]

/-- Without a sign in front, the exponent is what its digits say. -/
theorem signedExponent_unsigned {cs digits rest : List Char}
    (h : someDigits cs = some (digits, rest)) :
    signedExponent cs = some ((Text.ofDigits 10 digits : Int), rest) := by
  unfold signedExponent
  split
  · simp [someDigits, List.span_eq_takeWhile_dropWhile] at h
  · simp [someDigits, List.span_eq_takeWhile_dropWhile] at h
  · rw [h, Option.map_some]

theorem signedExponent_toString (e : Int) {rest : List Char}
    (hrest : ∀ c ∈ rest.head?, c.isDigit = false) :
    signedExponent ((toString e).toList ++ rest) = some (e, rest) := by
  cases e with
  | ofNat n =>
    have htext : (toString (Int.ofNat n)).toList = (toString n).toList := rfl
    rw [htext, signedExponent_unsigned (someDigits_toString n hrest), Text.ofDigits_toDigits]
    rfl
  | negSucc n =>
    have htext : (toString (Int.negSucc n)).toList = '-' :: (toString (n + 1)).toList :=
      String.toList_append
    rw [htext, List.cons_append]
    simp only [signedExponent, someDigits_toString _ hrest, Option.map_some, Text.ofDigits_toDigits]
    rfl

theorem exponentPart_exponentText (exponent : Option Int) {rest : List Char}
    (hrest : EndsNumber rest) :
    exponentPart (exponentText exponent ++ rest) = some (exponent, rest) := by
  cases exponent with
  | none =>
    simp only [exponentText, Option.elim, List.nil_append]
    unfold exponentPart
    split
    · exact absurd rfl (hrest 'e' rfl).2.2.1
    · exact absurd rfl (hrest 'E' rfl).2.2.2
    · rfl
  | some e =>
    have hsigned := signedExponent_toString e fun c hc => (hrest c hc).1
    simp only [exponentText, Option.elim, List.cons_append, exponentPart, hsigned, Option.map_some]

/-- Behind the digits of a fraction there is neither a digit nor a point. -/
theorem head?_exponentText (exponent : Option Int) {rest : List Char} (hrest : EndsNumber rest) :
    ∀ c ∈ (exponentText exponent ++ rest).head?, c.isDigit = false ∧ c ≠ '.' := by
  cases exponent with
  | none => exact fun c hc => ⟨(hrest c hc).1, (hrest c hc).2.1⟩
  | some e => simp [exponentText]

/-- Behind the digits in front of the point there is no further digit. -/
theorem head?_fractionText (fraction : List Nat) {rest : List Char}
    (hrest : ∀ c ∈ rest.head?, c.isDigit = false) :
    ∀ c ∈ (fractionText fraction ++ rest).head?, c.isDigit = false := by
  cases fraction with
  | nil => exact hrest
  | cons first more => simp [fractionText]

theorem unsignedNumber_text (negative : Bool) (whole : Nat) {fraction : List Nat}
    (hdigits : ∀ d ∈ fraction, d < 10) (exponent : Option Int) {rest : List Char}
    (hrest : EndsNumber rest) :
    unsignedNumber negative
        ((toString whole).toList ++ (fractionText fraction ++ (exponentText exponent ++ rest))) =
      some ({ negative, whole, fraction, exponent }, rest) := by
  have hbehind := head?_exponentText exponent hrest
  have hwhole := wholePart_toString whole
    (head?_fractionText fraction fun c hc => (hbehind c hc).1)
  simp only [unsignedNumber, hwhole, fractionPart_fractionText hdigits hbehind,
    exponentPart_exponentText exponent hrest, Option.bind_eq_bind, Option.bind_some]

/-- A number begins with a digit, or with a minus sign. -/
theorem exists_text_eq_cons (n : Number) :
    ∃ c cs, n.text = c :: cs ∧ (c.isDigit = true ∨ c = '-') := by
  rw [Number.text_eq]
  cases n.negative with
  | true => exact ⟨'-', _, rfl, .inr rfl⟩
  | false =>
    rw [toList_toString]
    cases hdigits : Nat.toDigits 10 n.whole with
    | nil => exact absurd hdigits Nat.toDigits_ne_nil
    | cons c digits =>
      exact ⟨c, _, rfl, .inl (Text.isDigit_of_mem_toDigits (hdigits ▸ List.mem_cons_self))⟩

/-- Without a sign in front, a number is what is read as unsigned. -/
theorem numberText_unsigned {cs rest : List Char} {n : Number}
    (h : unsignedNumber false cs = some (n, rest)) : numberText cs = some (n, rest) := by
  unfold numberText
  split
  · simp [unsignedNumber, wholePart, someDigits, List.span_eq_takeWhile_dropWhile] at h
  · exact h

theorem numberText_text {n : Number} (h : ∀ d ∈ n.fraction, d < 10) {rest : List Char}
    (hrest : EndsNumber rest) : numberText (n.text ++ rest) = some (n, rest) := by
  obtain ⟨negative, whole, fraction, exponent⟩ := n
  have hunsigned := unsignedNumber_text negative whole h exponent hrest
  rw [Number.text_eq]
  cases negative with
  | true =>
    simpa only [if_true, List.cons_append, List.nil_append, List.append_assoc, numberText]
      using hunsigned
  | false =>
    simpa only [Bool.false_eq_true, if_false, List.nil_append, List.append_assoc]
      using numberText_unsigned hunsigned

end Json

end RelSchema
