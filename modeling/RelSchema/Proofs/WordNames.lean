import Mathlib.Data.List.Basic
import Mathlib.Data.List.TakeWhile
import RelSchema.Naming.Method

/-!
# Names made of words

The words of a text are its longest runs of ASCII letters and digits. Two naming methods keep the
words and drop all between them. Both first cut the text at every separator, which leaves an empty
piece before a leading one, behind a trailing one and between two neighbours. Here the names are
told a second time, by one pass over the text that remembers only whether it is inside a word
(`capitalWords`); to this pass an empty piece is nothing. One induction connects the two
(`capitalWords_eq`), and what the methods keep and what they change is read off the pass.
-/

namespace RelSchema

namespace Text

/-! ## Case of letters and digits -/

theorem isAlphanum_toLower (c : Char) : c.toLower.isAlphanum = c.isAlphanum := by
  unfold Char.isAlphanum Char.isAlpha Char.isUpper Char.isLower Char.isDigit Char.toLower
  split <;> grind [UInt32.toNat_add, Char.toNat_val]

/-- Letter case decides nothing about what is kept. -/
theorem isAlphanum_eq_of_toLower_eq {c d : Char} (h : c.toLower = d.toLower) :
    c.isAlphanum = d.isAlphanum := by
  rw [← isAlphanum_toLower c, h, isAlphanum_toLower]

theorem toNat_lt_of_isAlphanum {c : Char} (h : c.isAlphanum = true) : c.toNat < 128 := by
  unfold Char.isAlphanum Char.isAlpha Char.isUpper Char.isLower Char.isDigit at h
  simp only [Bool.or_eq_true, Bool.and_eq_true, decide_eq_true_eq, ge_iff_le,
    UInt32.le_iff_toNat_le] at h
  simp only [Char.toNat_val, Char.reduceVal, UInt32.reduceToNat] at h
  omega

/-- What holds of the ASCII characters one by one holds of all letters and digits. -/
theorem forall_isAlphanum {P : Char → Prop} (h : ∀ code < 128, P (Char.ofNat code)) {c : Char}
    (hc : c.isAlphanum = true) : P c :=
  Char.ofNat_toNat c ▸ h c.toNat (toNat_lt_of_isAlphanum hc)

section Ascii

variable {c : Char} (h : c.isAlphanum = true)

include h

theorem toLower_toLower : c.toLower.toLower = c.toLower :=
  forall_isAlphanum (P := fun c => c.toLower.toLower = c.toLower) (by decide) h

theorem toLower_toUpper : c.toUpper.toLower = c.toLower :=
  forall_isAlphanum (P := fun c => c.toUpper.toLower = c.toLower) (by decide) h

theorem toUpper_toUpper : c.toUpper.toUpper = c.toUpper :=
  forall_isAlphanum (P := fun c => c.toUpper.toUpper = c.toUpper) (by decide) h

end Ascii

/-- A text in lower case has the letters and digits of the text, in lower case. -/
theorem map_toLower_filter_isAlphanum (cs : List Char) :
    ((cs.map Char.toLower).filter Char.isAlphanum).map Char.toLower =
      (cs.filter Char.isAlphanum).map Char.toLower := by
  have hkept : Char.isAlphanum ∘ Char.toLower = Char.isAlphanum := funext isAlphanum_toLower
  rw [List.filter_map, hkept, List.map_map]
  exact List.map_congr_left fun c hc => toLower_toLower (List.mem_filter.1 hc).2

theorem lowerFrom_ascii {cs : List Char} (h : ∀ c ∈ cs, c.toNat < 128) (before : List Char) :
    lowerFrom before cs = cs.map Char.toLower := by
  induction cs generalizing before with
  | nil => rfl
  | cons c rest ih =>
    have hc := h c List.mem_cons_self
    have hsigma : c ≠ 'Σ' := by
      rintro rfl
      exact absurd hc (by decide)
    rw [lowerFrom, if_neg hsigma, lowerChar_ascii hc,
      ih (fun d hd => h d (List.mem_cons_of_mem _ hd)), List.map_cons, List.singleton_append]

/-! ## Pieces between separators -/

variable {sep : Char → Bool} {c : Char} {cs piece : List Char} {pieces : List (List Char)}

theorem segments_cons_of_sep (h : sep c = true) :
    segments sep (c :: cs) = [] :: segments sep cs := by
  rw [segments, if_pos h]

theorem segments_cons_of_not_sep (h : sep c = false) (hpieces : segments sep cs = piece :: pieces) :
    segments sep (c :: cs) = (c :: piece) :: pieces := by
  simp only [segments, h, hpieces, Bool.false_eq_true, if_false]

theorem not_sep_of_mem_segments (hpiece : piece ∈ segments sep cs) (hc : c ∈ piece) :
    sep c = false := by
  induction cs generalizing piece with
  | nil =>
    rw [segments, List.mem_singleton] at hpiece
    exact absurd (hpiece ▸ hc) List.not_mem_nil
  | cons d rest ih =>
    cases hd : sep d with
    | true =>
      rw [segments_cons_of_sep hd, List.mem_cons] at hpiece
      rcases hpiece with rfl | hpiece
      · exact absurd hc List.not_mem_nil
      · exact ih hpiece hc
    | false =>
      obtain ⟨first, others, hrest⟩ := List.exists_cons_of_ne_nil (segments_ne_nil sep rest)
      rw [segments_cons_of_not_sep hd hrest, List.mem_cons] at hpiece
      rcases hpiece with rfl | hpiece
      · rcases List.mem_cons.1 hc with rfl | hc
        · exact hd
        · exact ih (hrest ▸ List.mem_cons_self) hc
      · exact ih (hrest ▸ List.mem_cons_of_mem _ hpiece) hc

/-- A mapping that keeps separators and non-separators apart keeps the cuts. -/
theorem segments_map {f : Char → Char} (hf : ∀ c, sep (f c) = sep c) (cs : List Char) :
    segments sep (cs.map f) = (segments sep cs).map (List.map f) := by
  induction cs with
  | nil => rfl
  | cons c rest ih =>
    rw [List.map_cons]
    cases hc : sep c with
    | true =>
      rw [segments_cons_of_sep ((hf c).trans hc), segments_cons_of_sep hc, ih, List.map_cons,
        List.map_nil]
    | false =>
      obtain ⟨piece, pieces, hrest⟩ := List.exists_cons_of_ne_nil (segments_ne_nil sep rest)
      rw [hrest, List.map_cons] at ih
      rw [segments_cons_of_not_sep ((hf c).trans hc) ih, segments_cons_of_not_sep hc hrest,
        List.map_cons, List.map_cons]

/-! ## Words -/

/-- A longest run of letters and digits of a text, with what stands before it and behind it. -/
structure IsWord (before word after : List Char) : Prop where
  ne_nil : word ≠ []
  isAlphanum : ∀ c ∈ word, c.isAlphanum = true
  separated_before : ∀ c ∈ before.getLast?, c.isAlphanum = false
  separated_after : ∀ c ∈ after.head?, c.isAlphanum = false

/-- What follows `before` in a text starts with a word. -/
def StartsWord (before rest : List Char) : Prop :=
  ∃ word after, rest = word ++ after ∧ IsWord before word after

/-- Whether a letter behind this text continues a word, where `inWord` tells the same of a letter in
front of it. -/
def endsInWord (inWord : Bool) (cs : List Char) : Bool :=
  (cs.getLast?.map Char.isAlphanum).getD inWord

theorem endsInWord_cons (inWord : Bool) (c : Char) (cs : List Char) :
    endsInWord inWord (c :: cs) = endsInWord c.isAlphanum cs := by
  rw [endsInWord, endsInWord, List.getLast?_cons]
  cases cs.getLast? <;> rfl

/-- A letter starts a word unless it continues one. -/
theorem startsWord_cons_iff {before after : List Char} (h : c.isAlphanum = true) :
    StartsWord before (c :: after) ↔ endsInWord false before = false := by
  have hseparated : endsInWord false before = false ↔
      ∀ d ∈ before.getLast?, d.isAlphanum = false := by
    rw [endsInWord]
    cases before.getLast? <;> simp
  rw [hseparated]
  constructor
  · rintro ⟨word, rest, -, hword⟩
    exact hword.separated_before
  · intro hbefore
    refine ⟨(c :: after).takeWhile Char.isAlphanum, (c :: after).dropWhile Char.isAlphanum,
      List.takeWhile_append_dropWhile.symm, ?_, fun d hd => List.mem_takeWhile_imp hd, hbefore, ?_⟩
    · rw [List.takeWhile_cons_of_pos h]
      exact List.cons_ne_nil _ _
    · intro d hd
      have hstop := List.head?_dropWhile_not Char.isAlphanum (c :: after)
      rwa [Option.mem_def.1 hd] at hstop

end Text

namespace NamingMethod

open Text (StartsWord endsInWord endsInWord_cons startsWord_cons_iff)

/-- The words of a text, each with a capital. `inWord` tells whether the text continues a word. -/
def capitalWords (inWord : Bool) : List Char → List Char
  | [] => []
  | c :: rest =>
    if c.isAlphanum then (if inWord then c else c.toUpper) :: capitalWords true rest
    else capitalWords false rest

variable {inWord : Bool} {c : Char} {cs : List Char}

theorem capitalWords_cons_of_isAlphanum (h : c.isAlphanum = true) (cs : List Char) :
    capitalWords inWord (c :: cs) =
      (if inWord then c else c.toUpper) :: capitalWords true cs := by
  rw [capitalWords, if_pos h]

theorem capitalWords_cons_of_not (h : c.isAlphanum = false) (cs : List Char) :
    capitalWords inWord (c :: cs) = capitalWords false cs := by
  rw [capitalWords, if_neg (Bool.eq_false_iff.1 h)]

/-! ## The methods as one pass -/

theorem isSeparator_of_isAlphanum (h : c.isAlphanum = true) : isSeparator c = false := by
  rw [isSeparator, h, Bool.not_true]

theorem isSeparator_of_not (h : c.isAlphanum = false) : isSeparator c = true := by
  rw [isSeparator, h, Bool.not_false]

theorem isAlphanum_of_mem_segments {piece : List Char}
    (hpiece : piece ∈ Text.segments isSeparator cs) (hc : c ∈ piece) : c.isAlphanum = true :=
  Bool.not_eq_false' _ ▸ Text.not_sep_of_mem_segments hpiece hc

/-- The pass writes the first piece as it is when the text continues a word, and all others with a
capital. -/
theorem capitalWords_eq {piece : List Char} {pieces : List (List Char)}
    (h : Text.segments isSeparator cs = piece :: pieces) : capitalWords inWord cs =
      (if inWord then piece else Text.capitalize piece) ++ pieces.flatMap Text.capitalize := by
  induction cs generalizing inWord piece pieces with
  | nil =>
    obtain ⟨rfl, rfl⟩ := List.cons.inj h
    cases inWord <;> rfl
  | cons c rest ih =>
    obtain ⟨first, others, hrest⟩ :=
      List.exists_cons_of_ne_nil (Text.segments_ne_nil isSeparator rest)
    cases hc : c.isAlphanum with
    | false =>
      -- the separator leaves an empty piece in front, and the next piece is written with a capital
      rw [Text.segments_cons_of_sep (isSeparator_of_not hc)] at h
      obtain ⟨rfl, rfl⟩ := List.cons.inj h
      rw [capitalWords_cons_of_not hc, ih hrest, hrest, List.flatMap_cons]
      cases inWord <;> rfl
    | true =>
      rw [Text.segments_cons_of_not_sep (isSeparator_of_isAlphanum hc) hrest] at h
      obtain ⟨rfl, rfl⟩ := List.cons.inj h
      rw [capitalWords_cons_of_isAlphanum hc, ih hrest]
      cases inWord with
      | true => rfl
      | false =>
        have hupper := Text.upperChar_ascii (Text.toNat_lt_of_isAlphanum hc)
        simp only [Bool.false_eq_true, if_false, if_true, Text.capitalize, hupper, List.cons_append,
          List.nil_append]

theorem applyChars_capitalized (name : List Char) :
    applyChars name capitalized = capitalWords false name := by
  obtain ⟨piece, pieces, h⟩ :=
    List.exists_cons_of_ne_nil (Text.segments_ne_nil isSeparator name)
  rw [applyChars, capitalWords_eq h, h, List.flatMap_cons]
  rfl

/-- Since separators have no case, it does not matter whether the text is put into lower case
before or after it is cut. -/
theorem applyChars_clean (name : List Char) :
    applyChars name clean = applyChars (name.map Char.toLower) capitalized := by
  have hsep : ∀ c : Char, isSeparator c.toLower = isSeparator c := fun c =>
    congrArg (! ·) (Text.isAlphanum_toLower c)
  rw [applyChars, applyChars, Text.segments_map hsep, List.flatMap_map]
  refine List.flatMap_congr fun piece hpiece => ?_
  have hascii : ∀ c ∈ piece, c.toNat < 128 := fun c hc =>
    Text.toNat_lt_of_isAlphanum (isAlphanum_of_mem_segments hpiece hc)
  rw [Text.lowerChars, Text.lowerFrom_ascii hascii]

/-! ## What the pass keeps -/

/-- Nothing is lost and nothing is added. -/
theorem map_toLower_capitalWords (inWord : Bool) (cs : List Char) :
    (capitalWords inWord cs).map Char.toLower = (cs.filter Char.isAlphanum).map Char.toLower := by
  induction cs generalizing inWord with
  | nil => rfl
  | cons c rest ih =>
    cases hc : c.isAlphanum with
    | false =>
      rw [capitalWords_cons_of_not hc, ih, List.filter_cons_of_neg (Bool.eq_false_iff.1 hc)]
    | true =>
      rw [capitalWords_cons_of_isAlphanum hc, List.filter_cons_of_pos hc, List.map_cons,
        List.map_cons, ih]
      cases inWord with
      | true => rfl
      | false =>
        rw [if_neg Bool.false_ne_true, Text.toLower_toUpper hc]

theorem length_capitalWords (inWord : Bool) (cs : List Char) :
    (capitalWords inWord cs).length = cs.countP Char.isAlphanum := by
  rw [← List.length_map Char.toLower, map_toLower_capitalWords, List.length_map,
    List.countP_eq_length_filter]

theorem isAlphanum_of_mem_capitalWords (h : c ∈ capitalWords inWord cs) : c.isAlphanum = true := by
  have hlower : c.toLower ∈ (cs.filter Char.isAlphanum).map Char.toLower :=
    map_toLower_capitalWords inWord cs ▸ List.mem_map_of_mem h
  obtain ⟨d, hd, heq⟩ := List.mem_map.1 hlower
  rw [← Text.isAlphanum_eq_of_toLower_eq heq]
  exact (List.mem_filter.1 hd).2

/-- A text can be passed in two parts: the second continues a word if the first stops in one. -/
theorem capitalWords_append (inWord : Bool) (before rest : List Char) :
    capitalWords inWord (before ++ rest) =
      capitalWords inWord before ++ capitalWords (endsInWord inWord before) rest := by
  induction before generalizing inWord with
  | nil => rfl
  | cons c before ih =>
    rw [List.cons_append, endsInWord_cons]
    cases hc : c.isAlphanum with
    | false => rw [capitalWords_cons_of_not hc, capitalWords_cons_of_not hc, ih]
    | true =>
      rw [capitalWords_cons_of_isAlphanum hc, capitalWords_cons_of_isAlphanum hc, ih,
        List.cons_append]

/-- A letter or digit is written at the place that counts those before it, and a letter as a capital
unless it continues a word. -/
theorem getElem?_capitalWords (before after : List Char) (h : c.isAlphanum = true) :
    (capitalWords false (before ++ c :: after))[before.countP Char.isAlphanum]? =
      some (if endsInWord false before then c else c.toUpper) := by
  rw [capitalWords_append, ← length_capitalWords false before,
    List.getElem?_append_right (Nat.le_refl _), Nat.sub_self, capitalWords_cons_of_isAlphanum h,
    List.getElem?_cons_zero]

/-- Each place of the result has a source: the letter or digit with so many before it. -/
theorem exists_source {place : Nat} (h : place < cs.countP Char.isAlphanum) :
    ∃ before c after, cs = before ++ c :: after ∧ c.isAlphanum = true ∧
      before.countP Char.isAlphanum = place := by
  rw [List.countP_eq_length_filter] at h
  have hsplit := List.take_append_drop place (cs.filter Char.isAlphanum)
  rw [List.drop_eq_getElem_cons h] at hsplit
  obtain ⟨xs, ys, hcs, hxs, hys⟩ := List.filter_eq_append_iff.1 hsplit.symm
  obtain ⟨skipped, after, hafter, hskipped, hc, -⟩ := List.filter_eq_cons_iff.1 hys
  refine ⟨xs ++ skipped, _, after, ?_, hc, ?_⟩
  · calc cs = xs ++ ys := hcs
      _ = xs ++ (skipped ++ _ :: after) := congrArg (xs ++ ·) hafter
      _ = xs ++ skipped ++ _ :: after := (List.append_assoc ..).symm
  · rw [List.countP_append, List.countP_eq_zero.2 hskipped, List.countP_eq_length_filter, hxs,
      List.length_take, Nat.add_zero, Nat.min_eq_left (Nat.le_of_lt h)]

/-- A text of letters and digits alone is one word. -/
theorem capitalWords_true_of_isAlphanum (h : ∀ c ∈ cs, c.isAlphanum = true) :
    capitalWords true cs = cs := by
  induction cs with
  | nil => rfl
  | cons c rest ih =>
    rw [capitalWords_cons_of_isAlphanum (h c List.mem_cons_self),
      ih fun d hd => h d (List.mem_cons_of_mem _ hd)]
    rfl

/-- What has been written is one word that has its capital. -/
theorem capitalWords_again (cs : List Char) :
    capitalWords false (capitalWords false cs) = capitalWords false cs := by
  induction cs with
  | nil => rfl
  | cons c rest ih =>
    cases hc : c.isAlphanum with
    | false => rw [capitalWords_cons_of_not hc, ih]
    | true =>
      have hupper : c.toUpper.isAlphanum = true :=
        (Text.isAlphanum_eq_of_toLower_eq (Text.toLower_toUpper hc)).trans hc
      rw [capitalWords_cons_of_isAlphanum hc, if_neg Bool.false_ne_true,
        capitalWords_cons_of_isAlphanum hupper, if_neg Bool.false_ne_true,
        Text.toUpper_toUpper hc,
        capitalWords_true_of_isAlphanum fun d hd => isAlphanum_of_mem_capitalWords hd]

/-! ## Names of both methods -/

/-- **Names made of words lose and add nothing.** Up to letter case, the names that both methods
derive are the letters and digits of the text, in order. A capitalized name differs from the text
only at the beginnings of words, which it writes as capitals; it is its own capitalized name; and a
clean name is the capitalized name of the text in lower case. -/
theorem alphanumerics_apply (name : String) :
    (clean.apply name).toList.map Char.toLower =
      (name.toList.filter Char.isAlphanum).map Char.toLower ∧
    (capitalized.apply name).toList.map Char.toLower =
      (name.toList.filter Char.isAlphanum).map Char.toLower ∧
    (∀ place letter, (capitalized.apply name).toList[place]? = some letter →
      ∃ before source after, name.toList = before ++ source :: after ∧
        source.isAlphanum = true ∧ before.countP Char.isAlphanum = place ∧
        (letter ≠ source → StartsWord before (source :: after)) ∧
        (StartsWord before (source :: after) → letter = source.toUpper)) ∧
    capitalized.apply (capitalized.apply name) = capitalized.apply name ∧
    clean.apply name = capitalized.apply (name.map Char.toLower) := by
  have hcapitalized (text : String) :
      (capitalized.apply text).toList = capitalWords false text.toList := by
    rw [apply, String.toList_ofList, applyChars_capitalized]
  have hclean : clean.apply name = capitalized.apply (name.map Char.toLower) := by
    rw [apply, apply, applyChars_clean, String.toList_map]
  refine ⟨?_, ?_, ?_, ?_, hclean⟩
  · rw [hclean, hcapitalized, map_toLower_capitalWords, String.toList_map,
      Text.map_toLower_filter_isAlphanum]
  · rw [hcapitalized, map_toLower_capitalWords]
  · intro place letter hletter
    rw [hcapitalized] at hletter
    have hplace := (List.getElem?_eq_some_iff.1 hletter).1
    rw [length_capitalWords] at hplace
    obtain ⟨before, source, after, hsplit, hsource, rfl⟩ := exists_source hplace
    rw [hsplit, getElem?_capitalWords before after hsource] at hletter
    refine ⟨before, source, after, hsplit, hsource, rfl, ?_⟩
    rw [startsWord_cons_iff hsource, ← Option.some.inj hletter]
    cases endsInWord false before <;> simp
  · rw [← String.toList_inj, hcapitalized, hcapitalized, capitalWords_again]

/-- The characters between the words `pen`, `n` and `me` separate them, whether letters or not. -/
theorem alphanumerics_apply_penName :
    (capitalized.apply "pen-näme").toList[4]? = some 'M' ∧
    ∃ before source after, "pen-näme".toList = before ++ source :: after ∧
      source.isAlphanum = true ∧ before.countP Char.isAlphanum = 4 ∧
      ('M' ≠ source → StartsWord before (source :: after)) ∧
      (StartsWord before (source :: after) → 'M' = source.toUpper) :=
  have hletter : (capitalized.apply "pen-näme").toList[4]? = some 'M' := by decide +kernel
  ⟨hletter, (alphanumerics_apply "pen-näme").2.2.1 4 'M' hletter⟩

end NamingMethod

end RelSchema
