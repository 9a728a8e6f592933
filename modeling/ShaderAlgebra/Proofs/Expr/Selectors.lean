import Mathlib.Data.Set.List
import ShaderAlgebra.Proofs.Typing.Annotated

/-!
# Selectors and their texts

The letters of the three alphabets are twelve different ones, so a letter tells its alphabet and its
component (`Alphabet.find?_eq_some`). The loop that reads a text goes from letter to letter and keeps
to the alphabet of the first (`Swizzle.readLetters_some`). Reading is therefore the inverse of
writing a selector of one to four components (`Swizzle.parse?_eq_some`), and the texts that can be
read are those of one to four letters of one alphabet.
-/

namespace ShaderAlgebra

open List

namespace Alphabet

variable {a : Alphabet} {c : Component}

lemma component?_eq_some {letter : Char} : a.component? letter = some c ↔ a.letter c = letter := by
  constructor
  · intro found
    exact eq_of_beq (find?_some (p := fun c => a.letter c == letter) found)
  · rintro rfl
    cases a <;> cases c <;> rfl

/-- A letter is found in the alphabet that has it. -/
lemma find?_eq_some {letter : Char} : find? letter = some (a, c) ↔ a.letter c = letter := by
  constructor
  · intro found
    obtain ⟨b, -, found⟩ := exists_of_findSome?_eq_some found
    obtain ⟨d, stands, ⟨⟩⟩ := Option.map_eq_some_iff.mp found
    exact component?_eq_some.mp stands
  · rintro rfl
    cases a <;> cases c <;> rfl

/-- The place of a letter in its alphabet is the component that it stands for. -/
lemma idxOf_letter (a : Alphabet) (c : Component) : a.text.toList.idxOf (a.letter c) = c.index := by
  cases a <;> cases c <;> rfl

lemma mem_text {letter : Char} : letter ∈ a.text.toList ↔ letter ∈ Set.range a.letter := by
  simp only [text, String.toList_ofList, mem_map, Set.mem_range]
  exact exists_congr fun c => and_iff_right (by cases c <;> simp [Component.all])

lemma text_mem (a : Alphabet) : a.text ∈ ["xyzw", "rgba", "stpq"] := by
  cases a <;> decide

lemma exists_text {lts : String} (mem : lts ∈ ["xyzw", "rgba", "stpq"]) :
    ∃ a : Alphabet, a.text = lts := by
  simp only [mem_cons, not_mem_nil, or_false] at mem
  rcases mem with rfl | rfl | rfl
  exacts [⟨.position, rfl⟩, ⟨.color, rfl⟩, ⟨.texture, rfl⟩]

end Alphabet

namespace Swizzle

variable {s : Swizzle} {field : String}

lemma toList_text (s : Swizzle) : s.text.toList = s.pattern.map s.alphabet.letter :=
  String.toList_ofList ..

/-- Once the alphabet is chosen, what is read has the letters that are left after what was read. -/
lemma readLetters_some {chosen : Alphabet} {pattern : List Component} {letters : List Char} :
    readLetters (some chosen) pattern letters = some s ↔
      ∃ rest, s = ⟨pattern ++ rest, chosen⟩ ∧ rest.map chosen.letter = letters := by
  induction letters generalizing pattern with
  | nil => simp [readLetters, eq_comm (b := s)]
  | cons letter letters ih =>
    simp only [readLetters, Option.bind_eq_bind, Option.bind_eq_some_iff, Prod.exists,
      Option.getD_some, Option.ite_none_right_eq_some]
    constructor
    · rintro ⟨_, component, found, rfl, read⟩
      obtain ⟨rest, rfl, rfl⟩ := ih.mp read
      exact ⟨component :: rest, by simp, by simp [Alphabet.find?_eq_some.mp found]⟩
    · rintro ⟨rest, rfl, written⟩
      obtain ⟨component, rest, rfl, rfl, rfl⟩ := map_eq_cons_iff.mp written
      exact ⟨_, component, Alphabet.find?_eq_some.mpr rfl, rfl, ih.mpr ⟨rest, by simp, rfl⟩⟩

/-- The loop reads the texts of selectors that pick something, and no others. -/
lemma readLetters_none {letters : List Char} :
    readLetters none [] letters = some s ↔ s.pattern ≠ [] ∧ s.text.toList = letters := by
  cases letters with
  | nil => simp [readLetters, toList_text]
  | cons letter letters =>
    simp only [readLetters, Option.bind_eq_bind, Option.bind_eq_some_iff, Prod.exists,
      Option.getD_none, if_true, readLetters_some, toList_text]
    constructor
    · rintro ⟨alphabet, component, found, rest, rfl, rfl⟩
      simp [Alphabet.find?_eq_some.mp found]
    · rintro ⟨-, written⟩
      obtain ⟨component, rest, picks, rfl, rfl⟩ := map_eq_cons_iff.mp written
      refine ⟨s.alphabet, component, Alphabet.find?_eq_some.mpr rfl, rest, ?_, rfl⟩
      obtain ⟨pattern, alphabet⟩ := s
      exact congrArg (mk · alphabet) picks

lemma parse_eq_ok_iff : parse field = .ok s ↔ parse? field = some s := by
  unfold parse
  cases parse? field <;> simp

/-- A text is read as a selector exactly if it is the text of one with one to four components. -/
lemma parse?_eq_some :
    parse? field = some s ↔ s.text = field ∧ 1 ≤ s.pattern.length ∧ s.pattern.length ≤ 4 := by
  have count (written : s.text = field) : field.toList.length = s.pattern.length := by
    rw [← written, toList_text, length_map]
  simp only [parse?, Option.ite_none_left_eq_some, readLetters_none, Bool.or_eq_true,
    isEmpty_iff_length_eq_zero, decide_eq_true_eq, String.toList_inj, ne_eq, ← length_eq_zero_iff]
  constructor
  · rintro ⟨fits, -, written⟩
    rw [count written] at fits
    exact ⟨written, by omega, by omega⟩
  · rintro ⟨written, atLeast, atMost⟩
    rw [count written]
    exact ⟨by omega, by omega, written⟩

lemma parse_eq_ok : parse field = .ok s ↔ s.text = field ∧ 1 ≤ s.length ∧ s.length ≤ 4 :=
  parse_eq_ok_iff.trans parse?_eq_some

/-- The type of one to four components. -/
lemma selected_type {cnt : Nat} {kind : Kind} (atLeast : 1 ≤ cnt) (atMost : cnt ≤ 4) :
    let ty : Ty := match Dim.ofCount? cnt with
      | some sel => .vector sel kind
      | none => .scalar kind
    ty.componentCount? = some cnt ∧ ty.kind? = some kind := by
  obtain rfl | rfl | rfl | rfl : cnt = 1 ∨ cnt = 2 ∨ cnt = 3 ∨ cnt = 4 := by omega
  all_goals exact ⟨rfl, rfl⟩

/-- Which texts are selectors, and what they select from which vectors. -/
theorem parse_iff_letters (field : String) :
    ((∃ s, parse field = .ok s) ↔ (1 ≤ field.length ∧ field.length ≤ 4)
        ∧ ∃ letters ∈ ["xyzw", "rgba", "stpq"], ∀ c ∈ field.toList, c ∈ letters.toList)
      ∧ (∀ s, parse field = .ok s ↔ s.text = field ∧ 1 ≤ s.length ∧ s.length ≤ 4)
      ∧ ∀ s, parse field = .ok s →
        (∃ letters ∈ ["xyzw", "rgba", "stpq"],
          s.pattern.map Component.index = field.toList.map letters.toList.idxOf)
        ∧ ∀ size kind,
          ((∃ ty, s.resultType (.vector size kind) = .ok ty) ↔
            ∀ component ∈ s.pattern, component.index < size.count)
          ∧ ∀ ty, s.resultType (.vector size kind) = .ok ty →
            ty.componentCount? = some field.length ∧ ty.kind? = some kind := by
  refine ⟨⟨?_, ?_⟩, fun s => parse_eq_ok, fun s parsed => ?_⟩
  · rintro ⟨s, parsed⟩
    obtain ⟨rfl, count⟩ := parse_eq_ok.mp parsed
    refine ⟨by simpa [← String.length_toList, toList_text, length] using count, s.alphabet.text,
      s.alphabet.text_mem, fun c mem => ?_⟩
    obtain ⟨component, -, rfl⟩ := mem_map.mp (toList_text s ▸ mem)
    exact Alphabet.mem_text.mpr ⟨component, rfl⟩
  · rintro ⟨count, letters, isAlphabet, inside⟩
    obtain ⟨alphabet, rfl⟩ := Alphabet.exists_text isAlphabet
    have covered : field.toList ∈ Set.range (map alphabet.letter) := by
      rw [Set.range_list_map]
      exact fun c mem => Alphabet.mem_text.mp (inside c mem)
    obtain ⟨pattern, written⟩ := covered
    refine ⟨⟨pattern, alphabet⟩, parse_eq_ok.mpr ⟨?_, ?_⟩⟩
    · rw [text, written, String.ofList_toList]
    · rwa [length, ← length_map alphabet.letter, written, String.length_toList]
  · obtain ⟨rfl, atLeast, atMost⟩ := parse_eq_ok.mp parsed
    refine ⟨⟨s.alphabet.text, s.alphabet.text_mem, ?_⟩, fun size kind => ⟨?_, fun ty typed => ?_⟩⟩
    · simp [toList_text, Alphabet.idxOf_letter]
    · simp [resultType_eq_ok]
    · obtain ⟨_, _, ⟨⟩, -, rfl⟩ := resultType_eq_ok.mp typed
      rw [← String.length_toList, toList_text, length_map]
      exact selected_type atLeast atMost

/-- The selector `bgr` picks three components of a `vec3`, and does not fit a `vec2`. -/
theorem parse_iff_letters_bgr :
    let s : Swizzle := ⟨[.z, .y, .x], .color⟩
    parse "bgr" = .ok s ∧ s.resultType (.vector .three .float) = .ok (.vector .three .float)
      ∧ ¬∃ ty, s.resultType (.vector .two .float) = .ok ty := by
  intro s
  obtain ⟨-, inverse, selects⟩ := parse_iff_letters "bgr"
  have parsed : parse "bgr" = .ok s := (inverse s).mpr (by decide)
  refine ⟨parsed, rfl, fun fits => ?_⟩
  exact absurd (((selects s parsed).2 .two .float).1.mp fits) (by decide)

end Swizzle

end ShaderAlgebra
