import CallbackLint.Pattern.Glob
import Mathlib.Data.List.Infix

namespace CallbackLint

/-!
# What shell patterns stand for

A pattern is matched by keeping, part after part, all that may be left of the text,
longest first.  After `*`, whatever the longest rest leaves includes what the shorter
ones leave, since these are its ends.  So the pattern fits exactly the texts
that are put together from what its parts stand for.
-/

namespace Glob

/-- The parts of a pattern stand for a text. -/
inductive Stands : List Item → List Char → Prop
  | nil : Stands [] []
  | anyText {items : List Item} {text : List Char} (front : List Char)
      (rest : Stands items text) : Stands (.anyText :: items) (front ++ text)
  | single {item : Item} {items : List Item} {char : Char} {text : List Char}
      (covered : item.covers char = true) (rest : Stands items text) :
      Stands (item :: items) (char :: text)

/-- Each text is an end of all texts before it. -/
def Descends (texts : List (List Char)) : Prop :=
  texts.Pairwise fun earlier later => later <:+ earlier

theorem mem_endings_iff {text rest : List Char} : rest ∈ endings text ↔ rest <:+ text := by
  induction text with
  | nil => simp [endings]
  | cons char text inductionHypothesis =>
      rw [endings, List.mem_cons, inductionHypothesis, List.suffix_cons_iff]

theorem descends_endings (text : List Char) : Descends (endings text) := by
  induction text with
  | nil => exact List.pairwise_singleton _ _
  | cons char text inductionHypothesis =>
      apply List.Pairwise.cons _ inductionHypothesis
      intro rest member
      exact (mem_endings_iff.mp member).trans (List.suffix_cons char text)

/-- What is left of a text after a part that stands for one character. -/
def rest? (item : Item) : List Char → Option (List Char)
  | [] => none
  | first :: rest => if item.covers first then some rest else none

theorem rest?_eq_some_iff {item : Item} {text rest : List Char} :
    rest? item text = some rest ↔ ∃ first, item.covers first = true ∧ text = first :: rest := by
  cases text with
  | nil => simp [rest?]
  | cons first text =>
      by_cases covered : item.covers first = true
      · simp [rest?, covered]
      · simp [rest?, covered]

theorem descends_filterMap {texts : List (List Char)} (descends : Descends texts) (item : Item) :
    Descends (texts.filterMap (rest? item)) := by
  apply List.pairwise_filterMap.mpr
  apply descends.imp
  intro earlier later isEnd rest left other leftOther
  rcases rest?_eq_some_iff.mp left with ⟨first, _, same⟩
  rcases rest?_eq_some_iff.mp leftOther with ⟨second, _, sameOther⟩
  rw [same, sameOther] at isEnd
  rcases List.suffix_cons_iff.mp isEnd with equal | shorter
  · rw [(List.cons.inj equal).2]
  · exact (List.suffix_cons second other).trans shorter

theorem leftAfter_cons {item : Item} (single : item ≠ .anyText) (items : List Item)
    (texts : List (List Char)) :
    leftAfter (item :: items) texts = leftAfter items (texts.filterMap (rest? item)) := by
  cases item with
  | anyText => exact False.elim (single rfl)
  | anyChar => rfl
  | char value => rfl
  | set negated ranges => rfl

/-- Some text among those that may be left is used up by the remaining parts exactly if
these parts stand for it. -/
theorem nil_mem_leftAfter_iff {items : List Item} {texts : List (List Char)}
    (descends : Descends texts) :
    [] ∈ leftAfter items texts ↔ ∃ text ∈ texts, Stands items text := by
  induction items generalizing texts with
  | nil =>
      rw [leftAfter]
      constructor
      · intro member
        exact ⟨[], member, .nil⟩
      · rintro ⟨text, member, stands⟩
        cases stands
        exact member
  | cons item items inductionHypothesis =>
      by_cases star : item = .anyText
      · rw [star]
        cases texts with
        | nil =>
            rw [leftAfter, inductionHypothesis descends]
            simp only [List.not_mem_nil, false_and, exists_false]
        | cons longest texts =>
            -- An end of a shorter text is an end of the longest one.
            have shorter := (List.pairwise_cons.mp descends).1
            rw [leftAfter, inductionHypothesis (descends_endings longest)]
            constructor
            · rintro ⟨rest, isEnd, stands⟩
              rcases mem_endings_iff.mp isEnd with ⟨front, whole⟩
              exact ⟨longest, List.mem_cons_self, whole ▸ .anyText front stands⟩
            · rintro ⟨text, member, stands⟩
              have within : text <:+ longest := by
                rcases List.mem_cons.mp member with same | later
                · rw [same]
                · exact shorter text later
              cases stands with
              | anyText front rest =>
                  refine ⟨_, mem_endings_iff.mpr ?_, rest⟩
                  exact (List.suffix_append front _).trans within
              | single covered rest => cases covered
      · rw [leftAfter_cons star, inductionHypothesis (descends_filterMap descends item)]
        constructor
        · rintro ⟨rest, member, stands⟩
          rcases List.mem_filterMap.mp member with ⟨text, listed, left⟩
          rcases rest?_eq_some_iff.mp left with ⟨first, covered, same⟩
          exact ⟨text, listed, same ▸ .single covered stands⟩
        · rintro ⟨text, member, stands⟩
          cases stands with
          | anyText front rest => exact False.elim (star rfl)
          | single covered rest =>
              refine ⟨_, List.mem_filterMap.mpr ⟨_, member, ?_⟩, rest⟩
              exact rest?_eq_some_iff.mpr ⟨_, covered, rfl⟩

/-- A pattern fits a text exactly if its parts stand for the text. -/
theorem fits_iff {pattern text : String} :
    fits pattern text = true ↔ Stands (read pattern.toList) text.toList := by
  have single : Descends [text.toList] := List.pairwise_singleton _ _
  have found := @nil_mem_leftAfter_iff (read pattern.toList) _ single
  simp only [List.mem_singleton, exists_eq_left] at found
  rw [fits, ← found]
  simp [List.isEmpty_iff]

end Glob

end CallbackLint
