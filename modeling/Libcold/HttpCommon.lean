import Libcold.HttpRequestParser

namespace Libcold.HttpCommon

/-- The character classes of the C locale. -/
def isalpha (c : UInt8) : Bool := (65 ≤ c && c ≤ 90) || (97 ≤ c && c ≤ 122)

def isdigit (c : UInt8) : Bool := 48 ≤ c && c ≤ 57

def isxdigit (c : UInt8) : Bool := isdigit c || (65 ≤ c && c ≤ 70) || (97 ≤ c && c ≤ 102)

def hexDigit (n : UInt8) : UInt8 := (ascii "0123456789ABCDEF").getD n.toNat 0

def encodeByte (c : UInt8) : List UInt8 :=
  if isalpha c || isdigit c then [c] else [37, hexDigit (c >>> 4), hexDigit (c &&& 15)]

def urlEncode (url : List UInt8) : List UInt8 := url.flatMap encodeByte

def hexToNum (c : UInt8) : UInt8 :=
  let h := toUpper c
  if 65 ≤ h && h ≤ 90 then h - 65 + 10 else h - 48

def urlDecode : List UInt8 → List UInt8
  | [] => []
  | c :: rest =>
      if c = 43 then 32 :: urlDecode rest
      else
        match rest with
        | high :: low :: behind =>
            if c = 37 && isxdigit high && isxdigit low then
              ((hexToNum high <<< 4) ||| hexToNum low) :: urlDecode behind
            else c :: urlDecode (high :: low :: behind)
        | rest => c :: urlDecode rest

/-- A spelling of the name of a field, in which upper and lower case do not matter. -/
def Spells (name key : List UInt8) : Prop := key.map toUpper = name.map toUpper

instance (name key : List UInt8) : Decidable (Spells name key) := inferInstanceAs (Decidable (_ = _))

/-- A percent sign that two hexadecimal digits follow. -/
def Escapes (c : UInt8) (rest : List UInt8) : Prop :=
  ∃ high low behind, rest = high :: low :: behind ∧ c = 37 ∧ isxdigit high = true ∧ isxdigit low = true

/-- The text has neither escapes nor plus signs. -/
def Plain (url : List UInt8) : Prop := ∀ before c rest, url = before ++ c :: rest → c ≠ 43 ∧ ¬ Escapes c rest

theorem urlDecode_plus (rest : List UInt8) : urlDecode (43 :: rest) = 32 :: urlDecode rest := by
  rcases rest with _ | ⟨high, _ | ⟨low, behind⟩⟩ <;> simp [urlDecode]

theorem urlDecode_escape {high low : UInt8} (hhigh : isxdigit high = true) (hlow : isxdigit low = true)
    (behind : List UInt8) :
    urlDecode (37 :: high :: low :: behind) = ((hexToNum high <<< 4) ||| hexToNum low) :: urlDecode behind := by
  rw [urlDecode, if_neg (by decide)]
  simp [hhigh, hlow]

theorem urlDecode_literal {c : UInt8} {rest : List UInt8} (hplus : c ≠ 43) (hescape : ¬ Escapes c rest) :
    urlDecode (c :: rest) = c :: urlDecode rest := by
  rcases rest with _ | ⟨high, _ | ⟨low, behind⟩⟩
  · simp [urlDecode, hplus]
  · simp [urlDecode, hplus]
  · rw [urlDecode, if_neg hplus, if_neg]
    intro h
    simp only [Bool.and_eq_true, decide_eq_true_eq] at h
    exact hescape ⟨high, low, behind, rfl, h.1.1, h.1.2, h.2⟩

theorem urlDecode_plain {url : List UInt8} (h : Plain url) : urlDecode url = url := by
  induction url with
  | nil => rfl
  | cons c rest ih =>
      obtain ⟨hplus, hescape⟩ := h [] c rest rfl
      rw [urlDecode_literal hplus hescape, ih]
      rintro before b behind rfl
      exact h (c :: before) b behind rfl

theorem decode_digits (c : UInt8) :
    (hexToNum (hexDigit (c >>> 4)) <<< 4) ||| hexToNum (hexDigit (c &&& 15)) = c ∧
      isxdigit (hexDigit (c >>> 4)) = true ∧ isxdigit (hexDigit (c &&& 15)) = true := by
  have hall : ∀ n : Fin 256,
      (hexToNum (hexDigit (UInt8.ofNat n >>> 4)) <<< 4) ||| hexToNum (hexDigit (UInt8.ofNat n &&& 15)) = UInt8.ofNat n ∧
        isxdigit (hexDigit (UInt8.ofNat n >>> 4)) = true ∧ isxdigit (hexDigit (UInt8.ofNat n &&& 15)) = true := by
    decide +kernel
  simpa using hall ⟨c.toNat, c.toNat_lt⟩

theorem hexToNum_digits {c : UInt8} (h : isxdigit c = true) :
    hexToNum c < 16 ∧ (hexToNum c = 2 ↔ c = 50) ∧ (hexToNum c = 15 ↔ c = 70 ∨ c = 102) := by
  have hall : ∀ n : Fin 256, isxdigit (UInt8.ofNat n) = true →
      hexToNum (UInt8.ofNat n) < 16 ∧ (hexToNum (UInt8.ofNat n) = 2 ↔ UInt8.ofNat n = 50) ∧
        (hexToNum (UInt8.ofNat n) = 15 ↔ UInt8.ofNat n = 70 ∨ UInt8.ofNat n = 102) := by
    decide +kernel
  simpa [h] using hall ⟨c.toNat, c.toNat_lt⟩

theorem escaped_slash {a b : UInt8} (ha : a < 16) (hb : b < 16) : (a <<< 4) ||| b = 47 ↔ a = 2 ∧ b = 15 := by
  have hall : ∀ m n : Fin 16,
      (UInt8.ofNat m <<< 4) ||| UInt8.ofNat n = 47 ↔ UInt8.ofNat m = 2 ∧ UInt8.ofNat n = 15 := by
    decide +kernel
  simpa using hall ⟨a.toNat, ha⟩ ⟨b.toNat, hb⟩

theorem urlDecode_encodeByte (c : UInt8) (rest : List UInt8) :
    urlDecode (encodeByte c ++ rest) = c :: urlDecode rest := by
  rw [encodeByte]
  split
  · next halnum =>
      refine urlDecode_literal ?_ ?_
      · rintro rfl
        exact absurd halnum (by decide)
      · rintro ⟨high, low, behind, -, rfl, -⟩
        exact absurd halnum (by decide)
  · obtain ⟨hvalue, hhigh, hlow⟩ := decode_digits c
    calc urlDecode ([37, hexDigit (c >>> 4), hexDigit (c &&& 15)] ++ rest)
        = ((hexToNum (hexDigit (c >>> 4)) <<< 4) ||| hexToNum (hexDigit (c &&& 15))) :: urlDecode rest :=
          urlDecode_escape hhigh hlow rest
      _ = c :: urlDecode rest := by rw [hvalue]

theorem urlDecode_urlEncode (text rest : List UInt8) : urlDecode (urlEncode text ++ rest) = text ++ urlDecode rest := by
  induction text with
  | nil => rfl
  | cons c text ih =>
      calc urlDecode (urlEncode (c :: text) ++ rest) = urlDecode (encodeByte c ++ (urlEncode text ++ rest)) := by
            simp [urlEncode]
        _ = c :: urlDecode (urlEncode text ++ rest) := urlDecode_encodeByte c _
        _ = c :: text ++ urlDecode rest := by rw [ih, List.cons_append]

end Libcold.HttpCommon
