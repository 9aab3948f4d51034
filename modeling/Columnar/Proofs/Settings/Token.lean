import Columnar.Settings.Token

/-!
# Tokens of written text

**Lexing** (`Token.Lexes`). A text lexes to some tokens if every amount of fuel that covers it gives
them. Each piece that is written puts its own token in front of those of the text behind it,
whatever that text is (`lexes_quoted`, `lexes_decimal`, `lexes_bool`, `lexes_punctuation`); a number
only needs to end there (`EndsNumber`).
-/

namespace Columnar.Token

/-- The text is that of the tokens. -/
def Lexes (cs : List Char) (ts : List Token) : Prop :=
  ∀ fuel, cs.length ≤ fuel → lex fuel cs = some ts

theorem lexes_nil : Lexes [] [] := fun fuel _ => by cases fuel <;> rfl

theorem lexes_cons {c : Char} {cs : List Char} {ts : List Token}
    (h : ∀ fuel, cs.length ≤ fuel → lex (fuel + 1) (c :: cs) = some ts) : Lexes (c :: cs) ts := by
  intro fuel hfuel
  cases fuel with
  | zero => cases hfuel
  | succ fuel => exact h fuel (Nat.le_of_succ_le_succ hfuel)

variable {cs : List Char} {ts : List Token}

/-! ## Blanks, brackets and flags -/

theorem lexes_blanks {l : List Char} (hl : ∀ c ∈ l, isBlank c = true) (h : Lexes cs ts) :
    Lexes (l ++ cs) ts := by
  induction l with
  | nil => exact h
  | cons c l ih =>
    refine lexes_cons ?_
    intro fuel hfuel
    rw [lex.eq_def]
    dsimp only
    rw [if_pos (hl c List.mem_cons_self)]
    exact ih (fun d hd => hl d (List.mem_cons_of_mem c hd)) fuel hfuel

/-- The token of a bracket, a colon or a comma. -/
def punctuation? : Char → Option Token
  | '\x7b' => some openBrace
  | '\x7d' => some closeBrace
  | '[' => some openBracket
  | ']' => some closeBracket
  | ':' => some colon
  | ',' => some comma
  | _ => none

theorem lexes_punctuation {c : Char} {t : Token} (hc : punctuation? c = some t) (h : Lexes cs ts) :
    Lexes (c :: cs) (t :: ts) := by
  refine lexes_cons ?_
  intro fuel hfuel
  have hrest := h fuel hfuel
  unfold punctuation? at hc
  split at hc <;> cases hc <;> simp [lex, isBlank, hrest]

theorem lexes_true (h : Lexes cs ts) :
    Lexes ('t' :: 'r' :: 'u' :: 'e' :: cs) (bool true :: ts) := by
  refine lexes_cons ?_
  intro fuel hfuel
  have hrest := h fuel (by simp at hfuel; omega)
  simp [lex, isBlank, hrest]

theorem lexes_false (h : Lexes cs ts) :
    Lexes ('f' :: 'a' :: 'l' :: 's' :: 'e' :: cs) (bool false :: ts) := by
  refine lexes_cons ?_
  intro fuel hfuel
  have hrest := h fuel (by simp at hfuel; omega)
  simp [lex, isBlank, hrest]

/-! ## Texts -/

theorem readText_plain {c : Char} (hquote : c ≠ '"') (hslash : c ≠ '\\') (hcontrol : ¬ c < ' ')
    (cs : List Char) : readText (c :: cs) = (readText cs).map fun p => (c :: p.1, p.2) := by
  rw [readText.eq_def]
  split
  · rename_i h
    cases h
  · rename_i h
    cases h
    exact absurd rfl hquote
  · rename_i h
    cases h
    exact absurd rfl hslash
  · rename_i h
    cases h
    exact absurd rfl hslash
  · rename_i h
    cases h
    rw [if_neg (not_or.mpr ⟨hcontrol, hslash⟩)]
    cases readText cs <;> rfl

theorem readText_code {n : Nat} (hn : n < 32) (cs : List Char) :
    readText ('\\' :: 'u' :: '0' :: '0' :: (Hex.byte (UInt8.ofNat n) ++ cs)) =
      (readText cs).map fun p => (Char.ofNat n :: p.1, p.2) := by
  have hbyte : (UInt8.ofNat n).toNat = n := UInt8.toNat_ofNat_of_lt' (Nat.lt_trans hn (by decide))
  have hhigh := Hex.digit?_digitChar (show n / 16 < 16 by omega)
  have hlow := Hex.digit?_digitChar (show n % 16 < 16 by omega)
  have hzero : Hex.digit? '0' = some 0 := rfl
  have hsum : n / 16 * 16 + n % 16 = n := by omega
  have hcode : hex4? '0' '0' (Nat.digitChar (n / 16)) (Nat.digitChar (n % 16)) = some n := by
    simp [hex4?, hzero, hhigh, hlow, hsum]
  rw [Hex.byte, hbyte, List.cons_append, List.cons_append, List.nil_append, readText, hcode]
  simp only [Option.bind_eq_bind, Option.bind_some]
  rw [if_neg (by omega), if_neg (by omega)]
  cases readText cs <;> rfl

theorem readText_short {e c : Char} (he : unescape? e = some c) (hu : e ≠ 'u') (cs : List Char) :
    readText ('\\' :: e :: cs) = (readText cs).map fun p => (c :: p.1, p.2) := by
  rw [readText.eq_def]
  split
  · rename_i h
    cases h
  · rename_i h
    cases h
  · rename_i h
    cases h
    exact absurd rfl hu
  · rename_i h
    cases h
    rw [he]
    cases readText cs <;> rfl
  · rename_i hne h
    cases h
    exact (hne e cs rfl rfl).elim

/-- **A written character is read back.** -/
theorem readText_escape (c : Char) (cs : List Char) :
    readText (escape c ++ cs) = (readText cs).map fun p => (c :: p.1, p.2) := by
  have hcode : ∀ n, c.toNat = n → c = Char.ofNat n := fun n hn => by rw [← hn, Char.ofNat_toNat]
  unfold escape
  split
  · rename_i h
    rcases h with rfl | rfl
    · exact readText_short rfl (by decide) cs
    · exact readText_short rfl (by decide) cs
  rename_i hplain
  split
  · rename_i h
    exact hcode 8 h ▸ readText_short rfl (by decide) cs
  split
  · rename_i h
    exact hcode 9 h ▸ readText_short rfl (by decide) cs
  split
  · rename_i h
    exact hcode 10 h ▸ readText_short rfl (by decide) cs
  split
  · rename_i h
    exact hcode 12 h ▸ readText_short rfl (by decide) cs
  split
  · rename_i h
    exact hcode 13 h ▸ readText_short rfl (by decide) cs
  split
  · rename_i h
    have hlt : c.toNat < 32 := h
    have hread := readText_code hlt cs
    rw [Char.ofNat_toNat] at hread
    exact hread
  · rename_i hcontrol
    -- what has no escape at all is written as it is
    obtain ⟨hquote, hslash⟩ := not_or.mp hplain
    exact readText_plain hquote hslash hcontrol cs

theorem readText_flatMap_escape (text cs : List Char) :
    readText (text.flatMap escape ++ '"' :: cs) = some (text, cs) := by
  induction text with
  | nil => rfl
  | cons c text ih =>
    rw [List.flatMap_cons, List.append_assoc, readText_escape, ih]
    rfl

theorem lexes_quoted (s : String) (h : Lexes cs ts) : Lexes (quoted s ++ cs) (text s :: ts) := by
  have hquoted : quoted s ++ cs = '"' :: (s.toList.flatMap escape ++ '"' :: cs) := by
    simp [quoted]
  rw [hquoted]
  refine lexes_cons ?_
  intro fuel hfuel
  have hrest := h fuel (by simp at hfuel; omega)
  simp [lex, isBlank, readText_flatMap_escape, hrest]

/-! ## Numbers -/

/-- A number ends in front of the text. -/
def EndsNumber (cs : List Char) : Prop :=
  ∀ c, cs.head? = some c → c.isDigit = false ∧ c ≠ '.' ∧ c ≠ 'e' ∧ c ≠ 'E'

/-- Only zero is written with a zero in front. -/
theorem head?_toDigits {n : Nat} (h : (Nat.toDigits 10 n).head? = some '0') : n = 0 := by
  induction n using Nat.strongRecOn with
  | ind n ih =>
    by_cases hlt : n < 10
    · rw [Nat.toDigits_of_lt_base hlt] at h
      have hall : ∀ m < 10, some (Nat.digitChar m) = some '0' → m = 0 := by decide
      exact hall n hlt h
    · rw [Nat.toDigits_of_base_le (by decide) (by omega),
        List.head?_append, Option.or_eq_some_iff] at h
      rcases h with h | ⟨hnone, -⟩
      · have := ih (n / 10) (by omega) h
        omega
      · exact absurd (List.head?_eq_none_iff.mp hnone) Nat.toDigits_ne_nil

/-- The digits of a signed number of eight bytes are few enough to be read. -/
theorem length_toDigits_le {n : Nat} (h : n ≤ longLimit) :
    (Nat.toDigits 10 n).length ≤ maxDigits :=
  (Nat.length_toDigits_le_iff (by decide) (by decide)).mpr (Nat.lt_of_le_of_lt h (by decide))

theorem readNat_toDigits {n : Nat} (hlength : (Nat.toDigits 10 n).length ≤ maxDigits)
    (h : EndsNumber cs) :
    readNat (Nat.toDigits 10 n ++ cs) = some (n, cs) := by
  have hdigits : ∀ c ∈ Nat.toDigits 10 n, c.isDigit = true := fun c hc =>
    Nat.isDigit_of_mem_toDigits (by decide) (by decide) hc
  have htake : (Nat.toDigits 10 n ++ cs).takeWhile Char.isDigit = Nat.toDigits 10 n := by
    rw [List.takeWhile_append_of_pos hdigits]
    cases cs with
    | nil => simp
    | cons c cs => simp [(h c rfl).1]
  have hdrop : (Nat.toDigits 10 n ++ cs).dropWhile Char.isDigit = cs := by
    rw [List.dropWhile_append_of_pos hdigits]
    cases cs with
    | nil => rfl
    | cons c cs => simp [(h c rfl).1]
  have hpos : 0 < (Nat.toDigits 10 n).length := Nat.length_toDigits_pos
  -- no number has a zero in front of other digits
  have hzero : ¬ ((Nat.toDigits 10 n).head? = some '0' ∧ 1 < (Nat.toDigits 10 n).length) := by
    rintro ⟨hhead, hlong⟩
    rw [head?_toDigits hhead, Nat.toDigits_zero] at hlong
    exact absurd hlong (by decide)
  simp only [readNat, htake, hdrop, Nat.ofDigitChars_ten_toDigits]
  rw [if_neg (not_or.mpr ⟨by omega, not_or.mpr ⟨by omega, hzero⟩⟩)]
  split
  · exact absurd rfl (h '.' rfl).2.1
  · exact absurd rfl (h 'e' rfl).2.2.1
  · exact absurd rfl (h 'E' rfl).2.2.2
  · rfl

theorem lex_digit {c : Char} (hc : c.isDigit = true) (fuel : Nat) (cs : List Char) :
    lex (fuel + 1) (c :: cs) =
      (readNat (c :: cs)).bind fun p => (lex fuel p.2).map (int p.1 :: ·) := by
  have hblank : isBlank c = false := by
    refine Bool.eq_false_iff.mpr ?_
    intro hb
    simp only [isBlank, Bool.or_eq_true, decide_eq_true_eq] at hb
    rcases hb with ((rfl | rfl) | rfl) | rfl <;> exact absurd hc (by decide)
  have hquote : c ≠ '"' := by
    rintro rfl
    exact absurd hc (by decide)
  have hminus : c ≠ '-' := by
    rintro rfl
    exact absurd hc (by decide)
  rw [lex.eq_def]
  dsimp only
  rw [if_neg (Bool.eq_false_iff.mp hblank), if_neg hquote, if_neg hminus, if_pos hc]
  cases readNat (c :: cs) with
  | none => rfl
  | some p =>
    rw [Option.bind_some]
    show (lex fuel p.2).bind _ = _
    cases lex fuel p.2 <;> rfl

theorem lexes_toDigits {n : Nat} (hlength : (Nat.toDigits 10 n).length ≤ maxDigits)
    (hends : EndsNumber cs) (h : Lexes cs ts) : Lexes (Nat.toDigits 10 n ++ cs) (int n :: ts) := by
  have hread := readNat_toDigits hlength hends
  cases hdigits : Nat.toDigits 10 n with
  | nil => exact absurd hdigits Nat.toDigits_ne_nil
  | cons c digits =>
    have hc : c.isDigit = true := by
      refine Nat.isDigit_of_mem_toDigits (b := 10) (n := n) (by decide) (by decide) ?_
      rw [hdigits]
      exact List.mem_cons_self
    rw [hdigits, List.cons_append] at hread
    rw [List.cons_append]
    refine lexes_cons ?_
    intro fuel hfuel
    rw [lex_digit hc, hread, Option.bind_some]
    rw [h fuel (by simp at hfuel; omega)]
    rfl

theorem lexes_decimal {i : Int} (hlength : (Nat.toDigits 10 i.natAbs).length ≤ maxDigits)
    (hends : EndsNumber cs) (h : Lexes cs ts) : Lexes (decimal i ++ cs) (int i :: ts) := by
  unfold decimal
  split
  · rename_i hneg
    rw [List.cons_append]
    refine lexes_cons ?_
    intro fuel hfuel
    have hrest := h fuel (by simp at hfuel; omega)
    have hread := readNat_toDigits hlength hends
    have habs : -(i.natAbs : Int) = i := by omega
    have hne : i.natAbs ≠ 0 := by omega
    generalize i.natAbs = n at hread habs hne ⊢
    simp [lex, isBlank, hread, hrest, hne, habs]
  · rename_i hpos
    have habs : (i.natAbs : Int) = i := by omega
    have hlexes := lexes_toDigits hlength hends h
    rwa [habs] at hlexes

end Columnar.Token
