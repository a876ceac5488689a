import Libcold.WebSocketServer

namespace Libcold.Crypto

/-- `*ptr` as one of the 64 values. -/
def value (c : UInt8) : Option Nat :=
  if 65 ≤ c && c ≤ 90 then some (c.toNat - 65)
  else if 97 ≤ c && c ≤ 122 then some (c.toNat - 97 + 26)
  else if 48 ≤ c && c ≤ 57 then some (c.toNat - 48 + 52)
  else if c = 43 then some 62
  else if c = 47 then some 63
  else none

/-- The string that is written to, with the distance of `writeBuf` from its beginning. -/
structure Output where
  result : List UInt8
  writeBuf : Nat := 0

namespace Output

/-- A write through `writeBuf`, which must not be past the end. -/
def put (out : Output) (c : Nat) : Option Output :=
  if out.writeBuf < out.result.length then
    some ⟨out.result.set out.writeBuf (UInt8.ofNat (c &&& 255)), out.writeBuf + 1⟩
  else none

def written (out : Output) : List UInt8 := out.result.take out.writeBuf

end Output

/-- Where the inner loop of `Base64Decode` has got to. -/
@[ext]
structure Group where
  i : Nat := 0
  padding : Nat := 0
  packed : Nat := 0

/-- The inner loop, with what is left of the input. It may return from the function. -/
def readGroup (g : Group) : List UInt8 → Option (Group × List UInt8)
  | [] => some (g, [])
  | c :: rest =>
      if g.i < 4 then
        if c = 61 then readGroup ⟨g.i + 1, g.padding + 1, g.packed <<< 6⟩ rest
        else if 0 < g.padding then none
        else
          match value c with
          | none => none
          | some val => readGroup ⟨g.i + 1, g.padding, (g.packed <<< 6) ||| val⟩ rest
      else some (g, c :: rest)

theorem length_readGroup {g g' : Group} {input rest : List UInt8} (h : readGroup g input = some (g', rest)) :
    rest.length + g'.i = input.length + g.i := by
  fun_induction readGroup g input with
  | case1 => cases h; rfl
  | case2 g rest hi ih =>
      have hlength := ih h
      simp only [List.length_cons] at hlength ⊢
      omega
  | case3 | case4 => cases h
  | case5 g c rest hi hc hpadding val hval ih =>
      have hlength := ih h
      simp only [List.length_cons] at hlength ⊢
      omega
  | case6 => cases h; rfl

/-- The bytes of a group: a third one only without padding, a second one with at most one sign. -/
def putGroup (out : Output) (g : Group) : Option Output := do
  let out ← out.put (g.packed >>> 16)
  let out ← if g.padding ≠ 2 then out.put (g.packed >>> 8) else some out
  if g.padding = 0 then out.put g.packed else some out

/-- The outer loop of `Base64Decode`. There is no result when a write goes past the buffer. -/
def decodeGroups (input : List UInt8) (out : Output) : Option (List UInt8) :=
  if input = [] then some out.written
  else
    match _h : readGroup {} input with
    | none => some []
    | some (g, rest) =>
        if _hi : g.i ≠ 4 then some []
        else if 0 < g.padding ∧ rest ≠ [] then some []
        else if 2 < g.padding then some []
        else do
          let out ← putGroup out g
          decodeGroups rest out
termination_by input.length
decreasing_by
  have := length_readGroup _h
  simp only [Nat.add_zero] at this
  omega

def base64Decode (input : List UInt8) : Option (List UInt8) :=
  decodeGroups input { result := List.replicate (input.length * 3 / 4) 0 }

/-- The first inner loop of `Base64Encode`: the bytes read, `packed`, and what is left of the input. -/
def readBytes (i packed : Nat) : List UInt8 → Nat × Nat × List UInt8
  | [] => (i, packed, [])
  | c :: rest => if i < 3 then readBytes (i + 1) ((packed <<< 8) ||| c.toNat) rest else (i, packed, c :: rest)

theorem length_readBytes (i packed : Nat) (input : List UInt8) :
    (readBytes i packed input).2.2.length ≤ input.length := by
  fun_induction readBytes i packed input with
  | case1 => exact Nat.le_refl _
  | case2 i packed c rest hi ih => exact Nat.le_succ_of_le ih
  | case3 => exact Nat.le_refl _

/-- The outer loop of `Base64Encode`. -/
def base64Encode (input : List UInt8) : List UInt8 :=
  match input with
  | [] => []
  | c :: rest =>
      let read := readBytes 0 0 (c :: rest)
      let padding := if read.1 = 2 then 1 else if read.1 = 1 then 2 else 0
      let packed := Nat.repeat (· <<< 8) (3 - read.1) read.2.1
      [base64Char (packed >>> 18), base64Char ((packed >>> 12) &&& 63)] ++
        (if padding ≠ 2 then [base64Char ((packed >>> 6) &&& 63)] else []) ++
        (if padding = 0 then [base64Char (packed &&& 63)] else []) ++ List.replicate padding 61 ++
        base64Encode read.2.2
termination_by input.length
decreasing_by exact Nat.lt_succ_of_le (length_readBytes 1 _ rest)

def alphabet : List UInt8 := (List.range 64).map base64Char

/-- Groups of four characters. The last one may end in one or two signs of padding. -/
def Accepted (t : List UInt8) : Prop :=
  ∃ (groups : List (List UInt8)) (letters : List UInt8) (padding : Nat),
    t = groups.flatten ++ (letters ++ List.replicate padding 61) ∧
      (∀ group ∈ groups, group.length = 4 ∧ ∀ c ∈ group, c ∈ alphabet) ∧
      letters.length + padding = 4 ∧ padding ≤ 2 ∧ ∀ c ∈ letters, c ∈ alphabet

def pack (packed : Nat) (letters : List UInt8) : Nat :=
  letters.foldl (fun p c => (p <<< 6) ||| (value c).getD 0) packed

def byte (c : Nat) : UInt8 := UInt8.ofNat (c &&& 255)

def groupBytes (padding packed : Nat) : List UInt8 :=
  [byte (packed >>> 16)] ++ (if padding ≠ 2 then [byte (packed >>> 8)] else []) ++
    if padding = 0 then [byte packed] else []

/-- A text, with the bytes that it is decoded to. -/
inductive Decodes : List UInt8 → List UInt8 → Prop
  | nil : Decodes [] []
  | group {letters rest bytes : List UInt8} {padding : Nat} (hletters : ∀ c ∈ letters, c ∈ alphabet)
      (hlength : letters.length + padding = 4) (hpadding : padding ≤ 2) (hlast : padding = 0 ∨ rest = [])
      (later : Decodes rest bytes) :
      Decodes (letters ++ (List.replicate padding 61 ++ rest))
        (groupBytes padding (pack 0 letters <<< (6 * padding)) ++ bytes)

theorem alphabet_eq :
    alphabet = (List.range' 65 26 ++ (List.range' 97 26 ++ (List.range' 48 10 ++ [43, 47]))).map UInt8.ofNat := by
  decide +kernel

theorem mem_alphabet_iff (c : UInt8) : c ∈ alphabet ↔ (value c).isSome = true ∧ c ≠ 61 := by
  have hmem : c ∈ alphabet ↔ c.toNat ∈ List.range' 65 26 ++ (List.range' 97 26 ++ (List.range' 48 10 ++ [43, 47])) := by
    rw [alphabet_eq, List.mem_map]
    constructor
    · rintro ⟨n, hn, rfl⟩
      have hlt : n < 256 := by
        simp only [List.mem_append, List.mem_range'_1, List.mem_cons, List.not_mem_nil, or_false] at hn
        omega
      rwa [UInt8.toNat_ofNat_of_lt' hlt]
    · intro hc
      exact ⟨c.toNat, hc, UInt8.ofNat_toNat⟩
  rw [hmem, value]
  simp only [List.mem_append, List.mem_range'_1, List.mem_cons, List.not_mem_nil, or_false, UInt8.le_iff_toNat_le,
    ← UInt8.toNat_inj, Bool.and_eq_true, decide_eq_true_eq, UInt8.reduceToNat, ne_eq]
  split_ifs <;> simp only [Option.isSome_some, Option.isSome_none, Bool.false_eq_true, true_and, false_and,
    iff_false] <;> omega

theorem readGroup_full {g : Group} (hfull : g.i = 4) (rest : List UInt8) : readGroup g rest = some (g, rest) := by
  cases rest with
  | nil => rfl
  | cons c rest => rw [readGroup, if_neg (by omega)]

theorem readGroup_signs {i padding packed : Nat} (n : Nat) (hfull : i + n = 4) (rest : List UInt8) :
    readGroup ⟨i, padding, packed⟩ (List.replicate n 61 ++ rest) =
      some (⟨4, padding + n, packed <<< (6 * n)⟩, rest) := by
  induction n generalizing i padding packed with
  | zero =>
      rw [List.replicate_zero, List.nil_append, readGroup_full (by omega)]
      simp [show i = 4 by omega]
  | succ n ih =>
      have hnext := @ih (i + 1) (padding + 1) (packed <<< 6) (by omega)
      rw [List.replicate_succ, List.cons_append, readGroup, if_pos (show i < 4 by omega), if_pos rfl, hnext,
        ← Nat.shiftLeft_add, Nat.add_assoc, Nat.add_comm 1 n, Nat.add_comm 6, ← Nat.mul_succ]

theorem readGroup_letters {i packed padding : Nat} {letters : List UInt8} (hletters : ∀ c ∈ letters, c ∈ alphabet)
    (hfull : i + (letters.length + padding) = 4) (rest : List UInt8) :
    readGroup ⟨i, 0, packed⟩ (letters ++ (List.replicate padding 61 ++ rest)) =
      some (⟨4, padding, pack packed letters <<< (6 * padding)⟩, rest) := by
  induction letters generalizing i packed with
  | nil =>
      have hsigns := @readGroup_signs i 0 packed padding (by simpa using hfull) rest
      rw [Nat.zero_add] at hsigns
      exact hsigns
  | cons c letters ih =>
      rw [List.forall_mem_cons] at hletters
      obtain ⟨hvalue, hsign⟩ := (mem_alphabet_iff c).mp hletters.1
      obtain ⟨val, hval⟩ := Option.isSome_iff_exists.mp hvalue
      rw [List.length_cons] at hfull
      rw [List.cons_append, readGroup, if_pos (show i < 4 by omega), if_neg hsign, if_neg (Nat.lt_irrefl 0), hval]
      have hnext := @ih (i + 1) ((packed <<< 6) ||| val) hletters.2 (by omega)
      dsimp only
      rw [hnext]
      simp [pack, hval]

theorem signs_of_readGroup {g g' : Group} {input rest : List UInt8} (hpadding : 0 < g.padding)
    (h : readGroup g input = some (g', rest)) :
    ∃ n, input = List.replicate n 61 ++ rest ∧ g' = ⟨g.i + n, g.padding + n, g.packed <<< (6 * n)⟩ := by
  fun_induction readGroup g input with
  | case1 => cases h; exact ⟨0, rfl, by simp⟩
  | case2 g rest hi ih =>
      obtain ⟨n, rfl, rfl⟩ := ih (Nat.succ_pos _) h
      refine ⟨n + 1, by simp [List.replicate_succ], ?_⟩
      simp only [Group.mk.injEq]
      rw [← Nat.shiftLeft_add]
      exact ⟨by omega, by omega, congrArg _ (by omega)⟩
  | case3 | case4 => cases h
  | case5 g c rest hi hc hnone => exact absurd hpadding hnone
  | case6 => cases h; exact ⟨0, rfl, by simp⟩

/-- What the inner loop has read: letters, and after them signs of padding. -/
theorem letters_of_readGroup {g g' : Group} {input rest : List UInt8} (hpadding : g.padding = 0)
    (h : readGroup g input = some (g', rest)) :
    ∃ letters padding, input = letters ++ (List.replicate padding 61 ++ rest) ∧ (∀ c ∈ letters, c ∈ alphabet) ∧
      g' = ⟨g.i + (letters.length + padding), padding, pack g.packed letters <<< (6 * padding)⟩ := by
  fun_induction readGroup g input with
  | case1 g =>
      cases h
      exact ⟨[], 0, rfl, by simp, Group.ext rfl hpadding rfl⟩
  | case2 g rest hi ih =>
      obtain ⟨n, rfl, rfl⟩ := signs_of_readGroup (Nat.succ_pos _) h
      refine ⟨[], n + 1, by simp [List.replicate_succ], by simp, ?_⟩
      simp only [Group.mk.injEq, List.length_nil, pack, List.foldl_nil]
      rw [← Nat.shiftLeft_add]
      exact ⟨by omega, by omega, congrArg _ (by omega)⟩
  | case3 | case4 => cases h
  | case5 g c rest hi hsign hnone val hval ih =>
      obtain ⟨letters, padding, rfl, hletters, rfl⟩ := ih hpadding h
      refine ⟨c :: letters, padding, rfl, ?_, ?_⟩
      · exact List.forall_mem_cons.mpr ⟨(mem_alphabet_iff c).mpr ⟨by simp [hval], hsign⟩, hletters⟩
      · simp only [Group.mk.injEq, List.length_cons, pack, List.foldl_cons, hval, Option.getD_some, and_self, and_true]
        omega
  | case6 g =>
      cases h
      exact ⟨[], 0, rfl, by simp, Group.ext rfl hpadding rfl⟩

theorem Output.put_spec {out : Output} (hroom : out.writeBuf < out.result.length) (c : Nat) :
    ∃ out', out.put c = some out' ∧ out'.written = out.written ++ [byte c] ∧
      out'.result.length = out.result.length ∧ out'.writeBuf = out.writeBuf + 1 := by
  refine ⟨_, if_pos hroom, ?_, by simp, rfl⟩
  rw [written, written, List.take_succ_eq_append_getElem (by simpa using hroom)]
  simp [byte, List.take_set_of_le]

theorem putGroup_spec {out : Output} (hroom : out.writeBuf + 3 ≤ out.result.length) (g : Group) :
    ∃ out', putGroup out g = some out' ∧ out'.written = out.written ++ groupBytes g.padding g.packed ∧
      out'.result.length = out.result.length ∧ out'.writeBuf ≤ out.writeBuf + 3 := by
  obtain ⟨out₁, hput₁, hwritten₁, hlength₁, hwrite₁⟩ := out.put_spec (by omega) (g.packed >>> 16)
  obtain ⟨out₂, hput₂, hwritten₂, hlength₂, hwrite₂⟩ := out₁.put_spec (by omega) (g.packed >>> 8)
  obtain ⟨out₃, hput₃, hwritten₃, hlength₃, hwrite₃⟩ := out₂.put_spec (by omega) g.packed
  by_cases htwo : g.padding = 2
  · refine ⟨out₁, by simp [putGroup, hput₁, htwo], by simp [groupBytes, hwritten₁, htwo], hlength₁, by omega⟩
  · by_cases hnone : g.padding = 0
    · refine ⟨out₃, by simp [putGroup, hput₁, hput₂, hput₃, hnone], ?_, by omega, by omega⟩
      simp [groupBytes, hwritten₁, hwritten₂, hwritten₃, hnone]
    · refine ⟨out₂, by simp [putGroup, hput₁, hput₂, htwo, hnone], ?_, by omega, by omega⟩
      simp [groupBytes, hwritten₁, hwritten₂, htwo, hnone]

theorem Decodes.split {input bytes : List UInt8} (h : Decodes input bytes) (hinput : input ≠ []) :
    ∃ g rest later, readGroup {} input = some (g, rest) ∧ g.i = 4 ∧ g.padding ≤ 2 ∧ (g.padding = 0 ∨ rest = []) ∧
      Decodes rest later ∧ bytes = groupBytes g.padding g.packed ++ later := by
  cases h with
  | nil => exact absurd rfl hinput
  | @group letters rest later padding hletters hlength hpadding hlast hrest =>
      exact ⟨_, rest, later, readGroup_letters hletters (by omega) rest, rfl, hpadding, hlast, hrest, rfl⟩

theorem Decodes.of_group {input rest later : List UInt8} {g : Group} (hread : readGroup {} input = some (g, rest))
    (hfull : g.i = 4) (hpadding : g.padding ≤ 2) (hlast : g.padding = 0 ∨ rest = []) (h : Decodes rest later) :
    Decodes input (groupBytes g.padding g.packed ++ later) := by
  obtain ⟨letters, padding, rfl, hletters, rfl⟩ := letters_of_readGroup rfl hread
  exact .group hletters (by simpa using hfull) hpadding hlast h

theorem exists_decodes_iff {input rest : List UInt8} {g : Group} (hinput : input ≠ [])
    (hread : readGroup {} input = some (g, rest)) :
    (∃ bytes, Decodes input bytes) ↔
      g.i = 4 ∧ g.padding ≤ 2 ∧ (g.padding = 0 ∨ rest = []) ∧ ∃ later, Decodes rest later := by
  constructor
  · rintro ⟨bytes, h⟩
    obtain ⟨g', rest', later, hread', hfull, hpadding, hlast, hlater, -⟩ := h.split hinput
    rw [hread] at hread'
    cases hread'
    exact ⟨hfull, hpadding, hlast, later, hlater⟩
  · rintro ⟨hfull, hpadding, hlast, later, hlater⟩
    exact ⟨_, .of_group hread hfull hpadding hlast hlater⟩

/-- With room in the buffer for three bytes of each four characters, no write goes past it. -/
theorem decodeGroups_spec (input : List UInt8) (out : Output)
    (hroom : out.writeBuf + input.length * 3 / 4 ≤ out.result.length) :
    ∃ r, decodeGroups input out = some r ∧
      ((∃ bytes, Decodes input bytes ∧ r = out.written ++ bytes) ∨ ((¬ ∃ bytes, Decodes input bytes) ∧ r = [])) := by
  fun_induction decodeGroups input out with
  | case1 out => exact ⟨_, rfl, .inl ⟨[], .nil, (List.append_nil _).symm⟩⟩
  | case2 input out hinput hread =>
      refine ⟨[], rfl, .inr ⟨?_, rfl⟩⟩
      rintro ⟨bytes, h⟩
      obtain ⟨g, rest, later, hgroup, -⟩ := h.split hinput
      rw [hread] at hgroup
      cases hgroup
  | case3 input out hinput g rest hread hi =>
      refine ⟨[], rfl, .inr ⟨?_, rfl⟩⟩
      rw [exists_decodes_iff hinput hread]
      exact fun h => hi h.1
  | case4 input out hinput g rest hread hi hmore =>
      refine ⟨[], rfl, .inr ⟨?_, rfl⟩⟩
      rw [exists_decodes_iff hinput hread]
      exact fun h => h.2.2.1.elim (Nat.ne_of_gt hmore.1) hmore.2
  | case5 input out hinput g rest hread hi hmore hmany =>
      refine ⟨[], rfl, .inr ⟨?_, rfl⟩⟩
      rw [exists_decodes_iff hinput hread]
      exact fun h => absurd h.2.1 (by omega)
  | case6 input out hinput g rest hread hi hmore hmany ih =>
      have hlength := length_readGroup hread
      have hfull : g.i = 4 := not_not.mp hi
      have hlast : g.padding = 0 ∨ rest = [] := by
        by_contra h
        rw [not_or] at h
        exact hmore ⟨Nat.pos_of_ne_zero h.1, h.2⟩
      simp only [Nat.add_zero, hfull] at hlength
      obtain ⟨out', hput, hwritten, hsize, hwrite⟩ := @putGroup_spec out (by omega) g
      obtain ⟨r, hr, hcases⟩ := ih out' (by omega)
      refine ⟨r, by rw [hput]; exact hr, ?_⟩
      rcases hcases with ⟨later, hlater, rfl⟩ | ⟨hnone, rfl⟩
      · refine .inl ⟨_, .of_group hread hfull (by omega) hlast hlater, ?_⟩
        rw [hwritten, List.append_assoc]
      · refine .inr ⟨?_, rfl⟩
        rw [exists_decodes_iff hinput hread]
        exact fun h => hnone h.2.2.2

theorem base64Decode_spec (t : List UInt8) :
    ∃ r, base64Decode t = some r ∧ (Decodes t r ∨ (¬ ∃ bytes, Decodes t bytes) ∧ r = []) := by
  obtain ⟨r, hr, hcases⟩ := decodeGroups_spec t { result := List.replicate (t.length * 3 / 4) 0 } (by simp)
  refine ⟨r, hr, hcases.imp ?_ id⟩
  rintro ⟨bytes, hbytes, rfl⟩
  exact hbytes

theorem Decodes.eq_nil_iff {t bytes : List UInt8} (h : Decodes t bytes) : bytes = [] ↔ t = [] := by
  cases h with
  | nil => simp
  | @group letters rest later padding hletters hlength hpadding hlast hrest =>
      have hletter : letters ≠ [] := by
        rintro rfl
        rw [List.length_nil] at hlength
        omega
      simp [groupBytes, hletter]

theorem Decodes.accepted {t bytes : List UInt8} (h : Decodes t bytes) (ht : t ≠ []) : Accepted t := by
  induction h with
  | nil => exact absurd rfl ht
  | @group letters rest later padding hletters hlength hpadding hlast hrest ih =>
      by_cases hmore : rest = []
      · subst rest
        exact ⟨[], letters, padding, by simp, by simp, hlength, hpadding, hletters⟩
      · obtain ⟨groups, letters', padding', rfl, hgroups, hrest⟩ := ih hmore
        have hzero : padding = 0 := hlast.resolve_right hmore
        refine ⟨letters :: groups, letters', padding', by simp [hzero], ?_, hrest⟩
        exact List.forall_mem_cons.mpr ⟨⟨by omega, hletters⟩, hgroups⟩

theorem Accepted.decodes {t : List UInt8} (h : Accepted t) : t ≠ [] ∧ ∃ bytes, Decodes t bytes := by
  obtain ⟨groups, letters, padding, rfl, hgroups, hlength, hpadding, hletters⟩ := h
  constructor
  · intro hnil
    have hsize := congrArg List.length hnil
    simp only [List.length_append, List.length_replicate, List.length_nil] at hsize
    omega
  · induction groups with
    | nil =>
        have hgroup := Decodes.group hletters hlength hpadding (.inr rfl) .nil
        rw [List.append_nil] at hgroup
        exact ⟨_, hgroup⟩
    | cons group groups ih =>
        obtain ⟨⟨hfour, halphabet⟩, hgroups⟩ := List.forall_mem_cons.mp hgroups
        obtain ⟨later, hlater⟩ := ih hgroups
        have hgroup := @Decodes.group group _ _ 0 halphabet hfour (Nat.zero_le 2) (.inl rfl) hlater
        exact ⟨_, by simpa using hgroup⟩

theorem Decodes.unique {t bytes bytes' : List UInt8} (h : Decodes t bytes) (h' : Decodes t bytes') :
    bytes = bytes' := by
  induction h generalizing bytes' with
  | nil => exact (h'.eq_nil_iff.mpr rfl).symm
  | @group letters rest later padding hletters hlength hpadding hlast hrest ih =>
      have hread := @readGroup_letters 0 0 padding letters hletters (by omega) rest
      have hinput : letters ++ (List.replicate padding 61 ++ rest) ≠ [] := by
        intro hnil
        have hsize := congrArg List.length hnil
        simp only [List.length_append, List.length_replicate, List.length_nil] at hsize
        omega
      obtain ⟨g, rest', later', hread', -, -, -, hlater', rfl⟩ := h'.split hinput
      rw [hread] at hread'
      cases hread'
      rw [ih hlater']

theorem or_byte (packed : Nat) (c : UInt8) : (packed <<< 8) ||| c.toNat = packed * 256 + c.toNat := by
  rw [← Nat.shiftLeft_add_eq_or_of_lt c.toNat_lt, Nat.shiftLeft_eq]

theorem value_base64Char {n : Nat} (h : n < 64) : value (base64Char n) = some n := by
  have hall : alphabet.map value = (List.range 64).map some := by
    rw [alphabet_eq]
    decide +kernel
  have hget := congrArg (fun values => values[n]?) hall
  simpa only [alphabet, List.map_map, List.getElem?_map, List.getElem?_range h, Option.map_some, Option.some.injEq,
    Function.comp_apply] using hget

theorem base64Char_mem {n : Nat} (h : n < 64) : base64Char n ∈ alphabet :=
  List.mem_map.mpr ⟨n, List.mem_range.mpr h, rfl⟩

theorem low_six (n : Nat) : n &&& 63 = n % 64 := Nat.and_two_pow_sub_one_eq_mod n 6

theorem readBytes_one (a : UInt8) : readBytes 0 0 [a] = (1, a.toNat, []) := by
  simp [readBytes]

theorem readBytes_two (a b : UInt8) : readBytes 0 0 [a, b] = (2, a.toNat * 256 + b.toNat, []) := by
  simp [readBytes, or_byte]

theorem readBytes_three (a b c : UInt8) (rest : List UInt8) :
    readBytes 0 0 (a :: b :: c :: rest) = (3, (a.toNat * 256 + b.toNat) * 256 + c.toNat, rest) := by
  cases rest <;> simp [readBytes, or_byte]

/-- The loops put out what the handshake sends. -/
theorem base64Encode_eq (input : List UInt8) : base64Encode input = Libcold.base64Encode input := by
  fun_induction Libcold.base64Encode input with
  | case1 => rw [base64Encode]
  | case2 a packed =>
      have hpacked : a.toNat <<< 8 <<< 8 = packed := by rw [← Nat.shiftLeft_add, Nat.shiftLeft_eq]
      rw [base64Encode, readBytes_one]
      simp [Nat.repeat, hpacked, low_six, Nat.shiftRight_eq_div_pow, base64Encode]
  | case3 a b packed =>
      have hpacked : (a.toNat * 256 + b.toNat) <<< 8 = packed := by
        rw [Nat.shiftLeft_eq]
        omega
      rw [base64Encode, readBytes_two]
      simp [Nat.repeat, hpacked, low_six, Nat.shiftRight_eq_div_pow, base64Encode]
  | case4 a b c rest packed ih =>
      have hpacked : (a.toNat * 256 + b.toNat) * 256 + c.toNat = packed := by omega
      rw [base64Encode, readBytes_three, ih]
      simp [Nat.repeat, hpacked, low_six, Nat.shiftRight_eq_div_pow]

theorem or_value (packed : Nat) {v : Nat} (h : v < 64) : (packed <<< 6) ||| v = packed * 64 + v := by
  rw [← Nat.shiftLeft_add_eq_or_of_lt h, Nat.shiftLeft_eq]

theorem pack_values (packed : Nat) {ns : List Nat} (hns : ∀ n ∈ ns, n < 64) :
    pack packed (ns.map base64Char) = ns.foldl (fun p n => p * 64 + n) packed := by
  induction ns generalizing packed with
  | nil => rfl
  | cons n ns ih =>
      obtain ⟨hn, hns⟩ := List.forall_mem_cons.mp hns
      have hstep : pack packed ((n :: ns).map base64Char) = pack (packed * 64 + n) (ns.map base64Char) := by
        rw [pack, List.map_cons, List.foldl_cons, value_base64Char hn, Option.getD_some, or_value _ hn, pack]
      rw [hstep, ih _ hns, List.foldl_cons]

/-- A group whose letters have the values of one number in base 64. -/
theorem Decodes.of_values {ns : List Nat} {rest later : List UInt8} {padding packed : Nat} (hns : ∀ n ∈ ns, n < 64)
    (hlength : ns.length + padding = 4) (hpadding : padding ≤ 2) (hlast : padding = 0 ∨ rest = [])
    (hpacked : ns.foldl (fun p n => p * 64 + n) 0 * 2 ^ (6 * padding) = packed) (h : Decodes rest later) :
    Decodes (ns.map base64Char ++ (List.replicate padding 61 ++ rest)) (groupBytes padding packed ++ later) := by
  have hletters : ∀ c ∈ ns.map base64Char, c ∈ alphabet := by
    intro c hc
    obtain ⟨n, hn, rfl⟩ := List.mem_map.mp hc
    exact base64Char_mem (hns n hn)
  have hgroup := Decodes.group hletters (by rw [List.length_map, hlength]) hpadding hlast h
  rwa [pack_values 0 hns, Nat.shiftLeft_eq, hpacked] at hgroup

theorem byte_shiftRight {n k : Nat} {c : UInt8} (h : n / 2 ^ k % 256 = c.toNat) : byte (n >>> k) = c := by
  have hbyte : n >>> k &&& 255 = c.toNat := by
    rw [Nat.shiftRight_eq_div_pow]
    exact (Nat.and_two_pow_sub_one_eq_mod _ 8).trans h
  rw [byte, hbyte, UInt8.ofNat_toNat]

theorem decodes_one {a : UInt8} {packed : Nat} (hpacked : packed = a.toNat * 2 ^ 16) :
    Decodes [base64Char (packed / 2 ^ 18), base64Char (packed / 2 ^ 12 % 64), 61, 61] [a] := by
  have ha := a.toNat_lt
  have hvalues : ∀ n ∈ [packed / 2 ^ 18, packed / 2 ^ 12 % 64], n < 64 := by
    simp only [List.forall_mem_cons, List.not_mem_nil, false_implies, implies_true, and_true]
    omega
  have hgroup := @Decodes.of_values _ [] [] 2 packed hvalues rfl (Nat.le_refl 2) (.inr rfl)
    (by simp only [List.foldl_cons, List.foldl_nil]; omega) .nil
  have hbytes : groupBytes 2 packed = [a] := by
    simp [groupBytes, byte_shiftRight (show packed / 2 ^ 16 % 256 = a.toNat by omega)]
  rwa [hbytes] at hgroup

theorem decodes_two {a b : UInt8} {packed : Nat} (hpacked : packed = a.toNat * 2 ^ 16 + b.toNat * 2 ^ 8) :
    Decodes [base64Char (packed / 2 ^ 18), base64Char (packed / 2 ^ 12 % 64), base64Char (packed / 2 ^ 6 % 64), 61]
      [a, b] := by
  have ha := a.toNat_lt
  have hb := b.toNat_lt
  have hvalues : ∀ n ∈ [packed / 2 ^ 18, packed / 2 ^ 12 % 64, packed / 2 ^ 6 % 64], n < 64 := by
    simp only [List.forall_mem_cons, List.not_mem_nil, false_implies, implies_true, and_true]
    omega
  have hgroup := @Decodes.of_values _ [] [] 1 packed hvalues rfl (Nat.le_succ 1) (.inr rfl)
    (by simp only [List.foldl_cons, List.foldl_nil]; omega) .nil
  have hbytes : groupBytes 1 packed = [a, b] := by
    simp [groupBytes, byte_shiftRight (show packed / 2 ^ 16 % 256 = a.toNat by omega),
      byte_shiftRight (show packed / 2 ^ 8 % 256 = b.toNat by omega)]
  rwa [hbytes] at hgroup

theorem decodes_three {a b c : UInt8} {packed : Nat} {rest later : List UInt8}
    (hpacked : packed = a.toNat * 2 ^ 16 + b.toNat * 2 ^ 8 + c.toNat) (h : Decodes rest later) :
    Decodes ([base64Char (packed / 2 ^ 18), base64Char (packed / 2 ^ 12 % 64), base64Char (packed / 2 ^ 6 % 64),
      base64Char (packed % 64)] ++ rest) (a :: b :: c :: later) := by
  have ha := a.toNat_lt
  have hb := b.toNat_lt
  have hc := c.toNat_lt
  have hvalues : ∀ n ∈ [packed / 2 ^ 18, packed / 2 ^ 12 % 64, packed / 2 ^ 6 % 64, packed % 64], n < 64 := by
    simp only [List.forall_mem_cons, List.not_mem_nil, false_implies, implies_true, and_true]
    omega
  have hgroup := @Decodes.of_values _ _ _ 0 packed hvalues rfl (Nat.zero_le 2) (.inl rfl)
    (by simp only [List.foldl_cons, List.foldl_nil]; omega) h
  have hbytes : groupBytes 0 packed = [a, b, c] := by
    simp [groupBytes, byte_shiftRight (show packed / 2 ^ 16 % 256 = a.toNat by omega),
      byte_shiftRight (show packed / 2 ^ 8 % 256 = b.toNat by omega),
      show byte packed = c from @byte_shiftRight packed 0 c (by omega)]
  rwa [hbytes] at hgroup

theorem decodes_base64Encode (s : List UInt8) : Decodes (Libcold.base64Encode s) s := by
  fun_induction Libcold.base64Encode s with
  | case1 => exact .nil
  | case2 a packed => exact decodes_one rfl
  | case3 a b packed => exact decodes_two rfl
  | case4 a b c rest packed ih => exact decodes_three rfl ih

/-- What is encoded is decoded again. Everything else is decoded to nothing, unless it
consists of whole groups; and no write goes past the buffer. -/
theorem base64_correct :
    (∀ s, base64Decode (base64Encode s) = some s) ∧
      ∀ t, ∃ r, base64Decode t = some r ∧ (r ≠ [] ↔ Accepted t) := by
  constructor
  · intro s
    have hs := decodes_base64Encode s
    rw [← base64Encode_eq] at hs
    obtain ⟨r, hr, hcases⟩ := base64Decode_spec (base64Encode s)
    rcases hcases with h | ⟨hnone, -⟩
    · rw [hr, h.unique hs]
    · exact absurd ⟨s, hs⟩ hnone
  · intro t
    obtain ⟨r, hr, hcases⟩ := base64Decode_spec t
    refine ⟨r, hr, ?_⟩
    rcases hcases with h | ⟨hnone, rfl⟩
    · rw [Ne, h.eq_nil_iff]
      exact ⟨h.accepted, fun haccepted => haccepted.decodes.1⟩
    · exact ⟨fun h => absurd rfl h, fun haccepted => absurd haccepted.decodes.2 hnone⟩

end Libcold.Crypto
