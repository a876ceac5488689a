import Libcold.HttpCommon

namespace Libcold.UrlCoding

/-- The functions of the C library take a `char` as the `int` that it is promoted to. -/
def isalpha (c : Int) : Bool := (65 ≤ c && c ≤ 90) || (97 ≤ c && c ≤ 122)

def isdigit (c : Int) : Bool := 48 ≤ c && c ≤ 57

def isxdigit (c : Int) : Bool := isdigit c || (65 ≤ c && c ≤ 70) || (97 ≤ c && c ≤ 102)

def toupper (c : Int) : Int := if 97 ≤ c && c ≤ 122 then c - 32 else c

def kHex : List Int8 := (ascii "0123456789ABCDEF").map UInt8.toInt8

def hexChar (index : Nat) : Int8 := kHex.getD index 0

def encodeChar (c : Int8) : List Int8 :=
  if isalpha c.toInt || isdigit c.toInt then [c]
  else [37, hexChar (c.toUInt8 >>> 4).toNat, hexChar (c.toInt32 &&& 15).toInt.toNat]

def urlEncode (url : List Int8) : List Int8 := url.flatMap encodeChar

def hexToNum (c : Int8) : UInt8 :=
  let h := toupper c.toInt
  UInt8.ofInt (if 65 ≤ h && h ≤ 90 then h - 65 + 10 else h - 48)

def urlDecode : List Int8 → List Int8
  | [] => []
  | c :: rest =>
      if c = 43 then 32 :: urlDecode rest
      else
        match rest with
        | high :: low :: behind =>
            if c = 37 && isxdigit high.toInt && isxdigit low.toInt then
              ((hexToNum high <<< 4) ||| hexToNum low).toInt8 :: urlDecode behind
            else c :: urlDecode (high :: low :: behind)
        | rest => c :: urlDecode rest

/-- The bytes of a string, without their signs. -/
def bytes (s : List Int8) : List UInt8 := s.map Int8.toUInt8

theorem chars_bytes (s : List Int8) : (bytes s).map UInt8.toInt8 = s := by
  induction s with
  | nil => rfl
  | cons c s ih => simpa [bytes] using ih

theorem toUInt8_eq_iff (c d : Int8) : c.toUInt8 = d.toUInt8 ↔ c = d := by
  constructor
  · intro h
    simpa using congrArg UInt8.toInt8 h
  · rintro rfl
    rfl

theorem bytes_encodeChar (c : Int8) : bytes (encodeChar c) = HttpCommon.encodeByte c.toUInt8 := by
  have hall : ∀ n : Fin 256,
      bytes (encodeChar (UInt8.ofNat n).toInt8) = HttpCommon.encodeByte (UInt8.ofNat n) := by
    decide +kernel
  simpa using hall ⟨c.toUInt8.toNat, c.toUInt8.toNat_lt⟩

theorem digits_agree (c : Int8) :
    isxdigit c.toInt = HttpCommon.isxdigit c.toUInt8 ∧ hexToNum c = HttpCommon.hexToNum c.toUInt8 := by
  have hall : ∀ n : Fin 256,
      isxdigit (UInt8.ofNat n).toInt8.toInt = HttpCommon.isxdigit (UInt8.ofNat n) ∧
        hexToNum (UInt8.ofNat n).toInt8 = HttpCommon.hexToNum (UInt8.ofNat n) := by
    decide +kernel
  simpa using hall ⟨c.toUInt8.toNat, c.toUInt8.toNat_lt⟩

theorem bytes_urlEncode (url : List Int8) : bytes (urlEncode url) = HttpCommon.urlEncode (bytes url) := by
  induction url with
  | nil => rfl
  | cons c url ih =>
      have hcons : bytes (urlEncode (c :: url)) = bytes (encodeChar c) ++ bytes (urlEncode url) := by
        simp [urlEncode, bytes]
      rw [hcons, ih, bytes_encodeChar]
      rfl

/-- An escape among the bytes of a text is one in the text. -/
theorem escape_of_bytes {c : Int8} {rest : List Int8} (h : HttpCommon.Escapes c.toUInt8 (bytes rest)) :
    ∃ high low behind, rest = high :: low :: behind ∧
      (decide (c = 37) && isxdigit high.toInt && isxdigit low.toInt) = true := by
  obtain ⟨high, low, behind, hrest, hc, hhigh, hlow⟩ := h
  rcases rest with _ | ⟨first, _ | ⟨second, rest⟩⟩
  · cases hrest
  · cases hrest
  · obtain ⟨rfl, htail⟩ := List.cons.inj hrest
    obtain ⟨rfl, -⟩ := List.cons.inj htail
    refine ⟨first, second, rest, rfl, ?_⟩
    rw [(digits_agree first).1, (digits_agree second).1, hhigh, hlow, (toUInt8_eq_iff c 37).mp hc]
    rfl

theorem bytes_urlDecode (url : List Int8) : bytes (urlDecode url) = HttpCommon.urlDecode (bytes url) := by
  fun_induction urlDecode url with
  | case1 => rfl
  | case2 rest ih =>
      calc bytes (32 :: urlDecode rest) = 32 :: HttpCommon.urlDecode (bytes rest) := congrArg (32 :: ·) ih
        _ = HttpCommon.urlDecode (43 :: bytes rest) := (HttpCommon.urlDecode_plus (bytes rest)).symm
  | case3 c hplus high low behind hescape ih =>
      simp only [Bool.and_eq_true, decide_eq_true_eq, (digits_agree _).1] at hescape
      obtain ⟨⟨rfl, hhigh⟩, hlow⟩ := hescape
      calc bytes (((hexToNum high <<< 4) ||| hexToNum low).toInt8 :: urlDecode behind)
          = ((hexToNum high <<< 4) ||| hexToNum low) :: bytes (urlDecode behind) := rfl
        _ = HttpCommon.urlDecode (37 :: high.toUInt8 :: low.toUInt8 :: bytes behind) := by
            rw [ih, (digits_agree high).2, (digits_agree low).2, HttpCommon.urlDecode_escape hhigh hlow]
  | case4 c hplus high low behind hescape ih =>
      have hliteral := @HttpCommon.urlDecode_literal c.toUInt8 (bytes (high :: low :: behind))
        (mt (toUInt8_eq_iff c 43).mp hplus) fun h => by
          obtain ⟨_, _, _, heq, hh⟩ := escape_of_bytes h
          cases heq
          exact hescape hh
      exact (congrArg (c.toUInt8 :: ·) ih).trans hliteral.symm
  | case5 c hplus rest hshort ih =>
      have hliteral := @HttpCommon.urlDecode_literal c.toUInt8 (bytes rest)
        (mt (toUInt8_eq_iff c 43).mp hplus) fun h => by
          obtain ⟨high, low, behind, heq, -⟩ := escape_of_bytes h
          exact hshort high low behind heq
      exact (congrArg (c.toUInt8 :: ·) ih).trans hliteral.symm

/-- Every string comes back, whatever the signs of its characters. -/
theorem url_round_trip (s : List Int8) : urlDecode (urlEncode s) = s := by
  have hbytes := HttpCommon.urlDecode_urlEncode (bytes s) []
  rw [HttpCommon.urlDecode, List.append_nil, List.append_nil, ← bytes_urlEncode, ← bytes_urlDecode] at hbytes
  rw [← chars_bytes (urlDecode (urlEncode s)), hbytes, chars_bytes]

end Libcold.UrlCoding
