import StyleTree.Text.Upper
import Mathlib

/-!
# Upper case is idempotent

No letter that upper case changes is the upper-case letter of another one. The tables are compared
as sets of character numbers, which stand as the bits of a number.
-/

namespace StyleTree.Text

def letters (first count step : Nat) : List Nat := (List.range count).map fun i => first + i * step

def changed : List Nat :=
  letters 0x61 26 1 ++ (upperExpansions.map Prod.fst ++
    upperRuns.flatMap fun (first, count, step, _) => letters first count step)

def images : List Nat :=
  letters 0x41 26 1 ++ (upperExpansions.flatMap Prod.snd ++
    upperRuns.flatMap fun (_, count, step, upper) => letters upper count step)

def bits (numbers : List Nat) : Nat := numbers.foldr (fun n bits => bits ||| 1 <<< n) 0

theorem testBit_bits (numbers : List Nat) (n : Nat) :
    (bits numbers).testBit n = decide (n ∈ numbers) := by
  induction numbers with
  | nil => simp [bits]
  | cons m rest ih =>
      rw [bits, List.foldr_cons, ← bits, Nat.testBit_or, ih, Nat.one_shiftLeft]
      by_cases same : m = n
      · simp [same]
      · simp [Nat.testBit_two_pow_of_ne same, Ne.symm same]

theorem changed_images : bits changed &&& bits images = 0 := by decide +kernel

theorem not_mem_changed {n : Nat} (image : n ∈ images) : n ∉ changed := by
  have apart := congrArg (Nat.testBit · n) changed_images
  simpa [Nat.testBit_and, testBit_bits, image] using apart

theorem mem_letters {first count step n : Nat} :
    n ∈ letters first count step ↔ ∃ i < count, first + i * step = n := by
  simp [letters]

theorem exists_of_upperInRun? {n m first count step upper : Nat} (more : 0 < count)
    (found : upperInRun? n (first, count, step, upper) = some m) :
    ∃ i < count, first + i * step = n ∧ upper + i * step = m := by
  simp only [upperInRun?, Option.ite_none_right_eq_some, Option.some.injEq] at found
  obtain ⟨⟨low, high, whole⟩, rfl⟩ := found
  have steps : (n - first) / step * step = n - first :=
    Nat.div_mul_cancel (Nat.dvd_of_mod_eq_zero whole)
  refine ⟨(n - first) / step, ?_, by omega, by omega⟩
  have within : (n - first) / step ≤ count - 1 := by
    refine Nat.div_le_of_le_mul ?_
    rw [Nat.mul_comm]
    omega
  omega

theorem count_pos : ∀ run ∈ upperRuns, 0 < run.2.1 := by decide +kernel

theorem upperChar_eq_self {c : Char} (same : c.toNat ∉ changed) : upperChar c = [c] := by
  simp only [changed, List.mem_append, not_or] at same
  obtain ⟨noAscii, noExpansion, noRun⟩ := same
  rw [upperChar]
  split
  · have high : ¬ ('a'.val ≤ c.val ∧ c.val ≤ 'z'.val) := by
      rintro ⟨low, high⟩
      refine noAscii (mem_letters.2 ⟨c.toNat - 0x61, ?_⟩)
      have low : 0x61 ≤ c.toNat := low
      have high : c.toNat ≤ 0x7A := high
      omega
    rw [Char.toUpper, dif_neg high]
  · have expansion : upperExpansions.lookup c.toNat = none := by
      rw [List.lookup_eq_none_iff]
      intro entry member
      have differ : c.toNat ≠ entry.1 := fun h => noExpansion (h ▸ List.mem_map_of_mem member)
      simpa using differ
    have run : upperRuns.findSome? (upperInRun? c.toNat) = none := by
      rw [List.findSome?_eq_none_iff]
      rintro ⟨first, count, step, upper⟩ member
      by_contra found
      obtain ⟨m, found⟩ := Option.ne_none_iff_exists'.1 found
      obtain ⟨i, less, place, -⟩ := exists_of_upperInRun? (count_pos _ member) found
      exact noRun (List.mem_flatMap.2 ⟨_, member, mem_letters.2 ⟨i, less, place⟩⟩)
    simp only [expansion, run, Option.map_none, Option.getD_none]

theorem upperChar_image {n : Nat} (image : n ∈ images) : upperChar (.ofNat n) = [.ofNat n] := by
  rw [Char.ofNat]
  split
  · exact upperChar_eq_self (not_mem_changed image)
  · rfl

theorem toUpper_ascii : ∀ n < 128, (Char.ofNat n).toUpper = .ofNat n ∨
    ∃ i < 26, (Char.ofNat n).toUpper = .ofNat (0x41 + i * 1) := by decide +kernel

theorem exists_image {c u : Char} (member : u ∈ upperChar c) :
    upperChar c = [c] ∨ ∃ n ∈ images, u = .ofNat n := by
  simp only [images, List.mem_append]
  rw [upperChar] at member ⊢
  split at member
  · next ascii =>
    rw [List.mem_singleton] at member
    rw [if_pos ascii]
    have cases := toUpper_ascii c.toNat ascii
    rw [Char.ofNat_toNat, ← member] at cases
    rcases cases with same | ⟨i, less, upper⟩
    · left
      rw [← member, same]
    · right
      exact ⟨_, .inl (mem_letters.2 ⟨i, less, rfl⟩), upper⟩
  · next notAscii =>
    rw [if_neg notAscii]
    cases expansion : upperExpansions.lookup c.toNat with
    | some letters =>
        right
        simp only [expansion] at member
        obtain ⟨n, inside, rfl⟩ := List.mem_map.1 member
        obtain ⟨before, after, parts, -⟩ := List.lookup_eq_some_iff.1 expansion
        have entry : (c.toNat, letters) ∈ upperExpansions := by simp [parts]
        exact ⟨n, .inr (.inl (List.mem_flatMap.2 ⟨_, entry, inside⟩)), rfl⟩
    | none =>
        simp only [expansion] at member
        cases found : upperRuns.findSome? (upperInRun? c.toNat) with
        | none =>
            left
            rfl
        | some m =>
            right
            simp only [found, Option.map_some, Option.getD_some, List.mem_singleton] at member
            obtain ⟨⟨first, count, step, upper⟩, run, inRun⟩ :=
              List.exists_of_findSome?_eq_some found
            obtain ⟨i, less, -, place⟩ := exists_of_upperInRun? (count_pos _ run) inRun
            have letter := mem_letters.2 ⟨i, less, place⟩
            exact ⟨m, .inr (.inr (List.mem_flatMap.2 ⟨_, run, letter⟩)), member⟩

theorem upperChar_upperChar {c u : Char} (member : u ∈ upperChar c) : upperChar u = [u] := by
  rcases exists_image member with same | ⟨n, image, rfl⟩
  · rw [same, List.mem_singleton] at member
    rw [member, same]
  · exact upperChar_image image

theorem upper_upper (s : String) : upper (upper s) = upper s := by
  have fixed (cs : List Char) (upper : ∀ u ∈ cs, upperChar u = [u]) :
      cs.flatMap upperChar = cs := by
    rw [List.flatMap_congr upper]
    exact List.flatMap_singleton' cs
  rw [upper, upper, String.toList_ofList, fixed]
  intro u member
  obtain ⟨c, -, member⟩ := List.mem_flatMap.1 member
  exact upperChar_upperChar member

theorem upper_ne {s t : String} (small : upper t ≠ t) : upper s ≠ t := by
  rintro rfl
  exact small (upper_upper s)

end StyleTree.Text
