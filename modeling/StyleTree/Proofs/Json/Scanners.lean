import StyleTree.Proofs.Json.Reading
import StyleTree.Proofs.Json.Writing
import Mathlib.Data.List.TakeWhile

/-!
# What scanners take

A scanner finds what it finds in the characters that it takes off the text: the rest of the text may
be exchanged for any other one that lets it end there, as `Scan.Local` says. It may look at one
character more to know where it ends, so that after a number only what closes it is let pass. A
whole number without a sign that is found has 64 bits at most: `natural_fits`.
-/

namespace StyleTree.Json

/-- What the scanner takes off a text, it takes off any text that begins with it and goes on in a
fit way, and it finds the same there. -/
def Scan.Local {α : Type} (fit : List Char → Prop)
    (scan : List Char → Except Fault (α × List Char)) : Prop :=
  ∀ text a rest, scan text = .ok (a, rest) →
    ∃ taken, text = taken ++ rest ∧ ∀ rest', fit rest' → scan (taken ++ rest') = .ok (a, rest')

def Anything (_ : List Char) : Prop := True

namespace Scan.Local

variable {α β : Type} {fit : List Char → Prop}

theorem ok (a : α) : Local fit fun rest => .ok (a, rest) := by
  rintro text _ rest ⟨⟩
  exact ⟨[], rfl, fun _ _ => rfl⟩

theorem error (f : List Char → Fault) : Local fit fun rest => (.error (f rest) : Scan α) := by
  rintro text _ rest ⟨⟩

theorem ite {p : Prop} [Decidable p] {scan scan' : List Char → Scan α} (yes : Local fit scan)
    (no : Local fit scan') : Local fit fun text => if p then scan text else scan' text := by
  by_cases h : p
  · simp only [h, if_true]
    exact yes
  · simp only [h, if_false]
    exact no

theorem bind {scan : List Char → Scan α} {next : α × List Char → Scan β}
    (first : Local Anything scan) (later : ∀ a, Local fit fun rest => next (a, rest)) :
    Local fit fun text => scan text >>= next := by
  intro text b rest read
  obtain ⟨⟨a, more⟩, found, goesOn⟩ := ok_of_bind read
  obtain ⟨taken, same, again⟩ := first text a more found
  obtain ⟨taken', same', again'⟩ := later a more b rest goesOn
  refine ⟨taken ++ taken', by rw [same, same', List.append_assoc], fun rest' fit' => ?_⟩
  have whole : scan (taken ++ (taken' ++ rest')) = .ok (a, taken' ++ rest') := again _ trivial
  simp only [List.append_assoc, whole]
  exact again' rest' fit'

theorem of_head {scan : List Char → Scan α} (empty : ∀ r, scan [] ≠ .ok r)
    (start : ∀ c, Local fit fun text => scan (c :: text)) : Local fit scan := by
  intro text a rest read
  cases text with
  | nil => exact absurd read (empty _)
  | cons c text =>
      obtain ⟨taken, rfl, again⟩ := start c text a rest read
      exact ⟨c :: taken, rfl, again⟩

end Scan.Local

def Scan.Still {α : Type} (scan : List Char → Scan α) : Prop :=
  ∀ text a rest, scan text = .ok (a, rest) → text = rest ∧ ∀ rest', scan rest' = .ok (a, rest')

namespace Scan.Still

variable {α : Type} {scan scan' : List Char → Scan α}

theorem ok (a : α) : Still fun rest => .ok (a, rest) := by
  rintro text _ _ ⟨⟩
  exact ⟨rfl, fun _ => rfl⟩

theorem error (f : List Char → Fault) : Still fun rest => (.error (f rest) : Scan α) := by
  rintro text _ _ ⟨⟩

theorem ite {p : Prop} [Decidable p] (yes : Still scan) (no : Still scan') :
    Still fun text => if p then scan text else scan' text := by
  by_cases h : p
  · simp only [h, if_true]
    exact yes
  · simp only [h, if_false]
    exact no

end Scan.Still

/-! ## Strings -/

theorem local_hexUnit : Scan.Local Anything Scan.hexUnit := by
  intro text n rest read
  unfold Scan.hexUnit at read
  split at read
  · next a b c d more =>
    split at read
    · next ha hb hc hd =>
      cases read
      refine ⟨[a, b, c, d], rfl, fun rest' _ => ?_⟩
      simp only [List.cons_append, List.nil_append, Scan.hexUnit, ha, hb, hc, hd]
    · rw [Scan.hexUnit.fault] at read
      split at read <;> cases read
  · rw [Scan.hexUnit.fault] at read
    split at read <;> cases read

theorem local_lowSurrogate (high : Nat) : Scan.Local Anything (Scan.lowSurrogate high) := by
  intro text c rest read
  unfold Scan.lowSurrogate at read
  split at read
  case h_3 text =>
    have after : Scan.Local Anything fun text => Scan.lowSurrogate high ('\\' :: 'u' :: text) :=
      local_hexUnit.bind fun _ => .ite (.ok _) (.error _)
    obtain ⟨taken, rfl, again⟩ := after text c rest read
    exact ⟨'\\' :: 'u' :: taken, rfl, again⟩
  all_goals cases read

theorem local_unicodeEscape : Scan.Local Anything Scan.unicodeEscape :=
  local_hexUnit.bind fun unit => .ite (.error _) (.ite (local_lowSurrogate unit) (.ok _))

theorem local_escape : Scan.Local Anything Scan.escape := by
  intro text c rest read
  unfold Scan.escape at read
  split at read
  · cases read
  · obtain ⟨taken, rfl, again⟩ := local_unicodeEscape _ _ _ read
    exact ⟨'u' :: taken, rfl, again⟩
  · next c' more other =>
    split at read
    · next simple =>
      cases read
      refine ⟨[c'], rfl, fun rest' _ => ?_⟩
      rw [List.cons_append, List.nil_append, Scan.escape]
      · simp only [simple]
      · exact other
    · cases read

theorem stringChars_char {c : Char} (quote : c ≠ '"') (slash : c ≠ '\\') (f : Char)
    (fuel text : List Char) :
    Scan.stringChars (f :: fuel) (c :: text) =
      if c < ' ' then .error (.before text .controlCharacter)
      else Scan.stringChars fuel text >>= fun r => .ok (c :: r.1, r.2) := by
  rw [Scan.stringChars]
  · exact quote
  · exact slash

-- the fuel is a text, of which each character that is found takes one
theorem stringChars_taken {fuel text cs rest : List Char}
    (read : Scan.stringChars fuel text = .ok (cs, rest)) :
    ∃ taken, text = taken ++ rest ∧ ∀ fuel' rest' : List Char, taken.length ≤ fuel'.length →
      Scan.stringChars fuel' (taken ++ rest') = .ok (cs, rest') := by
  induction fuel generalizing text cs with
  | nil => cases read
  | cons f fuel ih =>
      cases text with
      | nil => cases read
      | cons c text =>
          by_cases quote : c = '"'
          · subst quote
            cases read
            refine ⟨['"'], rfl, fun fuel' rest' enough => ?_⟩
            obtain ⟨f', fuel', rfl⟩ := List.exists_cons_of_length_pos enough
            rfl
          by_cases slash : c = '\\'
          · subst slash
            obtain ⟨⟨c, more⟩, escaped, found⟩ := ok_of_bind read
            obtain ⟨⟨cs, _⟩, found, same⟩ := ok_of_bind found
            cases same
            obtain ⟨taken, rfl, again⟩ := local_escape _ _ _ escaped
            obtain ⟨taken', rfl, again'⟩ := ih found
            refine ⟨'\\' :: (taken ++ taken'), by simp, fun fuel' rest' enough => ?_⟩
            obtain ⟨f', fuel', rfl⟩ := List.exists_cons_of_length_pos (Nat.zero_lt_of_lt enough)
            simp only [List.length_cons, List.length_append] at enough
            rw [List.cons_append, List.append_assoc, stringChars_escape (again _ trivial),
              again' fuel' rest' (by omega)]
            rfl
          · rw [stringChars_char quote slash] at read
            split at read
            · cases read
            · next printed =>
              obtain ⟨⟨cs, _⟩, found, same⟩ := ok_of_bind read
              cases same
              obtain ⟨taken, rfl, again⟩ := ih found
              refine ⟨c :: taken, rfl, fun fuel' rest' enough => ?_⟩
              obtain ⟨f', fuel', rfl⟩ := List.exists_cons_of_length_pos (Nat.zero_lt_of_lt enough)
              rw [List.cons_append, stringChars_char quote slash, if_neg printed,
                again fuel' rest' (Nat.le_of_succ_le_succ enough)]
              rfl

theorem local_string : Scan.Local Anything Scan.string := by
  intro text s rest read
  obtain ⟨⟨cs, more⟩, found, same⟩ := ok_of_bind read
  cases same
  obtain ⟨taken, rfl, again⟩ := stringChars_taken found
  refine ⟨taken, rfl, fun rest' _ => ?_⟩
  rw [Scan.string, again _ rest' (by simp)]
  rfl

/-! ## Numbers -/

def NoDigit (text : List Char) : Prop := text.head?.any Char.isDigit = false

theorem Closes.noDigit {rest : List Char} (closes : Closes rest) : NoDigit rest := closes.not_digit

theorem NoDigit.cons {c : Char} (other : ¬ c.isDigit) (text : List Char) : NoDigit (c :: text) := by
  simpa [NoDigit] using other

theorem NoDigit.append {text rest rest' : List Char} (none : NoDigit (text ++ rest))
    (none' : NoDigit rest') : NoDigit (text ++ rest') := by
  cases text with
  | nil => exact none'
  | cons c text => exact none

structure OverDigits {σ δ : Type} (scan : σ → List Char → δ × List Char) (next : σ → Char → σ)
    (result : σ → δ) : Prop where
  empty : ∀ s, scan s [] = (result s, [])
  start : ∀ s c text, scan s (c :: text) =
    if c.isDigit then scan (next s c) text else (result s, c :: text)

namespace OverDigits

variable {σ δ : Type} {scan : σ → List Char → δ × List Char} {next : σ → Char → σ}
  {result : σ → δ} {s : σ} {text rest : List Char}

theorem stops (digital : OverDigits scan next result) (none : NoDigit rest) (s : σ) :
    scan s rest = (result s, rest) := by
  cases rest with
  | nil => exact digital.empty s
  | cons c rest =>
      have other : ¬ c.isDigit := by simpa [NoDigit] using none
      rw [digital.start, if_neg other]

theorem taken (digital : OverDigits scan next result) {d : δ} (read : scan s text = (d, rest)) :
    NoDigit rest ∧ ∃ taken, text = taken ++ rest ∧
      ∀ rest', NoDigit rest' → scan s (taken ++ rest') = (d, rest') := by
  induction text generalizing s with
  | nil =>
      cases (digital.empty s).symm.trans read
      exact ⟨rfl, [], rfl, fun rest' none => digital.stops none s⟩
  | cons c text ih =>
      by_cases digit : c.isDigit
      · rw [digital.start, if_pos digit] at read
        obtain ⟨none, taken, rfl, again⟩ := ih read
        refine ⟨none, c :: taken, rfl, fun rest' none' => ?_⟩
        rw [List.cons_append, digital.start, if_pos digit, again rest' none']
      · cases (digital.stops (.cons digit text) s).symm.trans read
        exact ⟨.cons digit text, [], rfl, fun rest' none' => digital.stops none' s⟩

theorem takes (digital : OverDigits scan next result) {digits : List Char}
    (isDigit : ∀ c ∈ digits, c.isDigit) (none : NoDigit rest) (s : σ) :
    ∃ d, scan s (digits ++ rest) = (d, rest) := by
  induction digits generalizing s with
  | nil => exact ⟨_, digital.stops none s⟩
  | cons c digits ih =>
      obtain ⟨digit, isDigit⟩ := List.forall_mem_cons.1 isDigit
      rw [List.cons_append, digital.start, if_pos digit]
      exact ih isDigit _

end OverDigits

theorem digit_taken {c : Char} {text taken rest : List Char} (digit : c.isDigit)
    (none : NoDigit rest) (same : c :: text = taken ++ rest) :
    ∃ more, taken = c :: more ∧ text = more ++ rest := by
  cases taken with
  | nil =>
      rw [List.nil_append] at same
      subst same
      simp [NoDigit, digit] at none
  | cons c' taken =>
      cases same
      exact ⟨taken, rfl, rfl⟩

def keepWhole (d : Scan.Digits) (c : Char) : Scan.Digits :=
  let kept := d.kept * 10 + Scan.digitValue c
  if d.dropped = 0 ∧ kept ≤ Scan.largestNatural then { d with kept }
  else { d with dropped := d.dropped + 1 }

theorem overDigits_whole : OverDigits Scan.wholeDigits keepWhole id where
  empty _ := rfl
  start d c text := by
    simp only [Scan.wholeDigits, keepWhole, id]
    split
    · split <;> rfl
    · rfl

def keepPlace (s : Bool × Scan.Digits) (c : Char) : Bool × Scan.Digits :=
  let kept := s.2.kept * 10 + Scan.digitValue c
  if !s.1 ∧ kept ≤ Scan.largestNatural then
    (false, { s.2 with kept, places := s.2.places + 1 })
  else (true, s.2)

theorem overDigits_places :
    OverDigits (fun s => Scan.placeDigits s.1 s.2) keepPlace Prod.snd where
  empty _ := rfl
  start s c text := by
    simp only [Scan.placeDigits, keepPlace]
    split
    · split <;> rfl
    · rfl

section
variable {negative down : Bool} {d : Scan.Digits}

theorem still_double (exponent : Int) : Scan.Still (Scan.double negative d exponent) := by
  unfold Scan.double
  cases Decimal.Double.ofParts? d.kept exponent with
  | none => exact .error _
  | some magnitude => exact .ok _

theorem still_whole : Scan.Still (Scan.whole negative d) :=
  .ite (still_double _) (.ite (.ok _) (.ite (still_double _) (.ok _)))

theorem exponentDigits_noDigit {rest : List Char} (none : NoDigit rest) (exponent : Nat) :
    Scan.exponentDigits negative d down exponent rest =
      Scan.double negative d (d.exponent + if down then -(exponent : Int) else exponent) rest := by
  cases rest with
  | nil => rfl
  | cons c rest =>
      have other : ¬ c.isDigit := by simpa [NoDigit] using none
      rw [Scan.exponentDigits, if_neg other]

theorem dropWhile_digits {digits rest : List Char} (isDigit : ∀ c ∈ digits, c.isDigit)
    (none : NoDigit rest) : (digits ++ rest).dropWhile Char.isDigit = rest := by
  rw [List.dropWhile_append_of_pos isDigit]
  cases rest with
  | nil => rfl
  | cons c rest =>
      have other : ¬ c.isDigit := by simpa [NoDigit] using none
      exact List.dropWhile_cons_of_neg other

theorem local_exponentDigits (exponent : Nat) :
    Scan.Local Closes (Scan.exponentDigits negative d down exponent) := by
  intro text n rest read
  induction text generalizing exponent with
  | nil =>
      obtain ⟨rfl, again⟩ := still_double _ _ _ _ read
      refine ⟨[], rfl, fun rest' closes => ?_⟩
      exact (exponentDigits_noDigit closes.noDigit exponent).trans (again rest')
  | cons c text ih =>
      by_cases digit : c.isDigit
      · rw [Scan.exponentDigits, if_pos digit] at read
        dsimp only at read
        split at read
        · next fits =>
          obtain ⟨taken, rfl, again⟩ := ih _ read
          refine ⟨c :: taken, rfl, fun rest' closes => ?_⟩
          rw [List.cons_append, Scan.exponentDigits, if_pos digit]
          exact (if_pos fits).trans (again rest' closes)
        · next large =>
          split at read
          · cases read
          · next vanishes =>
            cases read
            have digits : ∀ c ∈ text.takeWhile Char.isDigit, c.isDigit :=
              fun c member => List.mem_takeWhile_imp member
            refine ⟨c :: text.takeWhile Char.isDigit, by simp, fun rest' closes => ?_⟩
            rw [List.cons_append, Scan.exponentDigits, if_pos digit]
            refine (if_neg large).trans ((if_neg vanishes).trans ?_)
            rw [dropWhile_digits digits closes.noDigit]
      · rw [exponentDigits_noDigit (.cons digit text)] at read
        obtain ⟨rfl, again⟩ := still_double _ _ _ _ read
        refine ⟨[], rfl, fun rest' closes => ?_⟩
        exact (exponentDigits_noDigit closes.noDigit exponent).trans (again rest')

theorem local_exponentPart : Scan.Local Closes (Scan.exponentPart negative d) := by
  -- a digit must be next where a sign may stand or has been
  have unsigned (down : Bool) (c : Char) : Scan.Local Closes fun text =>
      if c.isDigit then Scan.exponentDigits negative d down (Scan.digitValue c) text
      else .error (.into (c :: text) .invalidNumber) :=
    .ite (local_exponentDigits _) (.error _)
  refine .of_head nofun fun c => ?_
  by_cases plus : c = '+'
  · subst plus
    exact .of_head nofun (unsigned false)
  by_cases minus : c = '-'
  · subst minus
    exact .of_head nofun (unsigned true)
  · have digits (text : List Char) : Scan.exponentPart negative d (c :: text) =
        if c.isDigit then Scan.exponentDigits negative d false (Scan.digitValue c) text
        else .error (.into (c :: text) .invalidNumber) := by
      simp [Scan.exponentPart, plus, minus]
    simp only [digits]
    exact unsigned false c

theorem Closes.doubleEnd {rest : List Char} (closes : Closes rest) :
    Scan.doubleEnd negative d rest = Scan.double negative d d.exponent rest := by
  cases rest with
  | nil => rfl
  | cons c rest =>
      have ⟨_, _, noExponent⟩ := closer_ends_number c (closes c rfl)
      rw [Scan.doubleEnd, if_neg noExponent]

theorem local_doubleEnd : Scan.Local Closes (Scan.doubleEnd negative d) := by
  intro text n rest read
  cases text with
  | nil =>
      obtain ⟨rfl, again⟩ := still_double _ _ _ _ read
      exact ⟨[], rfl, fun rest' closes => closes.doubleEnd.trans (again rest')⟩
  | cons c text =>
      rw [Scan.doubleEnd] at read
      split at read
      · next mark =>
        obtain ⟨taken, rfl, again⟩ := local_exponentPart _ _ _ read
        refine ⟨c :: taken, rfl, fun rest' closes => ?_⟩
        rw [List.cons_append, Scan.doubleEnd, if_pos mark, again rest' closes]
      · obtain ⟨rfl, again⟩ := still_double _ _ _ _ read
        exact ⟨[], rfl, fun rest' closes => closes.doubleEnd.trans (again rest')⟩

theorem local_fraction : Scan.Local Closes (Scan.fraction negative d) := by
  intro text n rest read
  cases text with
  | nil => cases read
  | cons c text =>
      rw [Scan.fraction] at read
      split at read
      · next digit =>
        rcases places : Scan.placeDigits false d (c :: text) with ⟨d', more⟩
        simp only [places] at read
        obtain ⟨none, taken, same, again⟩ := overDigits_places.taken (s := (false, d)) places
        obtain ⟨taken', rfl, again'⟩ := local_doubleEnd _ _ _ read
        obtain ⟨more, rfl, rfl⟩ := digit_taken digit none same
        refine ⟨c :: (more ++ taken'), by simp, fun rest' closes => ?_⟩
        have places' := again (taken' ++ rest') (none.append closes.noDigit)
        rw [List.cons_append] at places'
        rw [List.cons_append, List.append_assoc, Scan.fraction, if_pos digit, places']
        exact again' rest' closes
      · cases read

theorem local_afterWhole : Scan.Local Closes (Scan.afterWhole negative d) := by
  intro text n rest read
  have done {text : List Char} (read : Scan.whole negative d text = .ok (n, rest)) :
      ∃ taken, text = taken ++ rest ∧ ∀ rest', Closes rest' →
        Scan.afterWhole negative d (taken ++ rest') = .ok (n, rest') := by
    obtain ⟨rfl, again⟩ := still_whole _ _ _ read
    exact ⟨[], rfl, fun rest' closes => (closes.afterWhole ..).trans (again rest')⟩
  cases text with
  | nil => exact done read
  | cons c text =>
      by_cases point : c = '.'
      · subst point
        obtain ⟨taken, rfl, again⟩ := local_fraction _ _ _ read
        exact ⟨'.' :: taken, rfl, again⟩
      have other (text : List Char) : Scan.afterWhole negative d (c :: text) =
          if Scan.isExponentMark c then Scan.exponentPart negative d text
          else Scan.whole negative d (c :: text) := by
        rw [Scan.afterWhole]
        exact point
      rw [other] at read
      split at read
      · next mark =>
        obtain ⟨taken, rfl, again⟩ := local_exponentPart _ _ _ read
        refine ⟨c :: taken, rfl, fun rest' closes => ?_⟩
        rw [List.cons_append, other, if_pos mark, again rest' closes]
      · exact done read

end

theorem local_number (negative : Bool) : Scan.Local Closes (Scan.number negative) := by
  intro text n rest read
  cases text with
  | nil => cases read
  | cons c text =>
      by_cases zero : c = '0'
      · subst zero
        rw [Scan.number] at read
        split at read
        · cases read
        · next none =>
          obtain ⟨taken, rfl, again⟩ := local_afterWhole _ _ _ read
          refine ⟨'0' :: taken, rfl, fun rest' closes => ?_⟩
          have none' : NoDigit (taken ++ rest') :=
            NoDigit.append (Bool.eq_false_iff.2 none) closes.noDigit
          rw [List.cons_append, Scan.number, if_neg (Bool.eq_false_iff.1 none'),
            again rest' closes]
      have start (text : List Char) : Scan.number negative (c :: text) =
          if c.isDigit then
            Scan.afterWhole negative (Scan.wholeDigits ⟨0, 0, 0⟩ (c :: text)).1
              (Scan.wholeDigits ⟨0, 0, 0⟩ (c :: text)).2
          else .error (.into (c :: text) .invalidNumber) := by
        rw [Scan.number]
        exact zero
      rw [start] at read
      split at read
      · next digit =>
        rcases digits : Scan.wholeDigits ⟨0, 0, 0⟩ (c :: text) with ⟨d, more⟩
        simp only [digits] at read
        obtain ⟨none, taken, same, again⟩ := overDigits_whole.taken digits
        obtain ⟨taken', rfl, again'⟩ := local_afterWhole _ _ _ read
        obtain ⟨more, rfl, rfl⟩ := digit_taken digit none same
        refine ⟨c :: (more ++ taken'), by simp, fun rest' closes => ?_⟩
        have digits' := again (taken' ++ rest') (none.append closes.noDigit)
        rw [List.cons_append] at digits'
        rw [List.cons_append, List.append_assoc, start, if_pos digit, digits']
        exact again' rest' closes
      · cases read

/-! ## Words -/

theorem word_taken {α : Type} {value a : α} {expected text rest : List Char}
    (read : Scan.word value expected text = .ok (a, rest)) :
    a = value ∧ text = expected ++ rest ∧
      ∀ rest', Scan.word value expected (expected ++ rest') = .ok (value, rest') := by
  induction expected generalizing text with
  | nil =>
      cases read
      exact ⟨rfl, rfl, fun _ => rfl⟩
  | cons e expected ih =>
      cases text with
      | nil => cases read
      | cons c text =>
          rw [Scan.word] at read
          split at read
          · next same =>
            obtain ⟨rfl, rfl, again⟩ := ih read
            refine ⟨rfl, by rw [same, List.cons_append], fun rest' => ?_⟩
            rw [List.cons_append, Scan.word, if_pos rfl, again]
          · cases read

/-! ## Whole numbers fit -/

section
variable {negative down : Bool} {d : Scan.Digits} {text : List Char}

def Scan.Fitting (scan : Scan Number) : Prop :=
  ∀ n rest, scan = .ok (.natural n, rest) → n ≤ Scan.largestNatural

namespace Scan.Fitting

theorem error (f : Fault) : Fitting (.error f) := nofun

theorem double {magnitude : Decimal.Double} :
    Fitting (.ok (.double negative magnitude, text)) := nofun

theorem ite {p : Prop} [Decidable p] {scan scan' : Scan Number} (yes : Fitting scan)
    (no : Fitting scan') : Fitting (if p then scan else scan') := by
  split
  · exact yes
  · exact no

end Scan.Fitting

theorem fitting_double (exponent : Int) : Scan.Fitting (Scan.double negative d exponent text) := by
  rw [Scan.double]
  split
  · exact .double
  · exact .error _

theorem fitting_exponentDigits (exponent : Nat) :
    Scan.Fitting (Scan.exponentDigits negative d down exponent text) := by
  induction text generalizing exponent with
  | nil => exact fitting_double _
  | cons c text ih =>
      rw [Scan.exponentDigits]
      exact .ite (.ite (ih _) (.ite (.error _) .double)) (fitting_double _)

theorem fitting_exponentPart : Scan.Fitting (Scan.exponentPart negative d text) := by
  rw [Scan.exponentPart.eq_def]
  dsimp only
  split
  · exact .error _
  · exact .ite (fitting_exponentDigits _) (.error _)

theorem fitting_doubleEnd : Scan.Fitting (Scan.doubleEnd negative d text) := by
  cases text with
  | nil => exact fitting_double _
  | cons c text => exact .ite fitting_exponentPart (fitting_double _)

theorem fitting_fraction : Scan.Fitting (Scan.fraction negative d text) := by
  cases text with
  | nil => exact .error _
  | cons c text => exact .ite fitting_doubleEnd (.error _)

theorem fitting_whole (kept : d.kept ≤ Scan.largestNatural) :
    Scan.Fitting (Scan.whole negative d text) := by
  refine .ite (fitting_double _) (.ite ?_ (.ite (fitting_double _) nofun))
  rintro n rest ⟨⟩
  exact kept

theorem fitting_afterWhole (kept : d.kept ≤ Scan.largestNatural) :
    Scan.Fitting (Scan.afterWhole negative d text) := by
  rw [Scan.afterWhole.eq_def]
  split
  · exact fitting_fraction
  · exact .ite fitting_exponentPart (fitting_whole kept)
  · exact fitting_whole kept

theorem kept_wholeDigits (kept : d.kept ≤ Scan.largestNatural) :
    (Scan.wholeDigits d text).1.kept ≤ Scan.largestNatural := by
  induction text generalizing d with
  | nil => exact kept
  | cons c text ih =>
      rw [Scan.wholeDigits]
      dsimp only
      split_ifs with _ fits
      · exact ih fits.2
      · exact ih kept
      · exact kept

theorem fitting_number : Scan.Fitting (Scan.number negative text) := by
  rw [Scan.number.eq_def]
  split
  · exact .error _
  · exact .ite (.error _) (fitting_afterWhole (Nat.zero_le _))
  · next c text _ =>
    have kept : (Scan.wholeDigits ⟨0, 0, 0⟩ (c :: text)).1.kept ≤ Scan.largestNatural :=
      kept_wholeDigits (Nat.zero_le _)
    exact .ite (fitting_afterWhole kept) (.error _)

theorem natural_fits {n : Nat} {rest : List Char}
    (read : Scan.scalar text = .ok (.number (.natural n), rest)) : n ≤ Scan.largestNatural := by
  have found {negative : Bool} {text : List Char}
      (read : (Scan.number negative text).map (fun r => (Json.number r.1, r.2)) =
        .ok (.number (.natural n), rest)) : n ≤ Scan.largestNatural := by
    obtain ⟨⟨m, _⟩, found, same⟩ := ok_of_map read
    cases same
    exact fitting_number _ _ found
  unfold Scan.scalar at read
  split at read
  · cases read
  · cases (word_taken read).1
  · cases (word_taken read).1
  · cases (word_taken read).1
  · obtain ⟨_, -, same⟩ := ok_of_map read
    cases same
  · exact found read
  · split at read
    · exact found read
    · cases read

end

end StyleTree.Json
