import Libcold.Delimited
import Libcold.HttpCommon
import Mathlib.Data.List.Nodup

namespace Libcold

open HttpCommon Delimited

namespace HeaderMap

def lookup (headers : HeaderMap) (key : List UInt8) : Option (List UInt8) :=
  (headers.find? fun p => p.1 = key).map Prod.snd

theorem get_eq (headers : HeaderMap) (key : List UInt8) : headers.get key = (headers.lookup key).getD [] := by
  rw [get, lookup]
  cases headers.find? fun p => p.1 = key <;> rfl

theorem has_eq (headers : HeaderMap) (key : List UInt8) : headers.has key = (headers.lookup key).isSome := by
  rw [has, lookup, Option.isSome_map, Bool.eq_iff_iff, List.find?_isSome, List.any_eq_true]

theorem lookup_set (headers : HeaderMap) (key value key' : List UInt8) :
    (headers.set key value).lookup key' = if key = key' then some value else headers.lookup key' := by
  induction headers with
  | nil => by_cases h : key = key' <;> simp [set, lookup, h]
  | cons p rest ih =>
      obtain ⟨k, v⟩ := p
      rw [set]
      by_cases hk : key = k
      · subst k
        by_cases h : key = key' <;> simp [lookup, h]
      · rw [if_neg hk]
        by_cases hlt : key < k
        · rw [if_pos hlt]
          by_cases h : key = key' <;> simp [lookup, h]
        · rw [if_neg hlt]
          by_cases hkey : k = key'
          · subst k
            simp [lookup, hk]
          · simp only [lookup, List.find?_cons, hkey, decide_false] at ih ⊢
            exact ih

/-- The entries that come later count. -/
theorem lookup_foldl (ps : HeaderMap) (headers : HeaderMap) (key : List UInt8) :
    (ps.foldl (fun m p => m.set p.1 p.2) headers).lookup key = (lookup ps.reverse key).or (headers.lookup key) := by
  induction ps generalizing headers with
  | nil => simp [lookup]
  | cons p ps ih =>
      rw [List.foldl_cons, ih, lookup_set, List.reverse_cons]
      simp only [lookup, List.find?_append]
      by_cases h : p.1 = key
      · cases ps.reverse.find? fun p => p.1 = key <;> simp [h]
      · cases ps.reverse.find? fun p => p.1 = key <;> simp [h]

theorem mem_of_lookup {ps : HeaderMap} {key value : List UInt8} (h : ps.lookup key = some value) :
    (key, value) ∈ ps := by
  obtain ⟨p, hfound, rfl⟩ := Option.map_eq_some_iff.mp h
  have hkey := List.find?_some hfound
  simp only [decide_eq_true_eq] at hkey
  exact hkey ▸ List.mem_of_find?_eq_some hfound

theorem lookup_of_mem {ps : HeaderMap} (hdistinct : (ps.map Prod.fst).Nodup) {p : List UInt8 × List UInt8}
    (h : p ∈ ps) : ps.lookup p.1 = some p.2 := by
  induction ps with
  | nil => cases h
  | cons q ps ih =>
      simp only [List.map_cons, List.nodup_cons] at hdistinct
      rcases List.mem_cons.mp h with rfl | h
      · simp [lookup]
      · have hne : q.1 ≠ p.1 := by
          intro heq
          exact hdistinct.1 (heq ▸ List.mem_map_of_mem h)
        simpa [lookup, hne] using ih hdistinct.2 h

theorem lookup_reverse {ps : HeaderMap} (hdistinct : (ps.map Prod.fst).Nodup) (key : List UInt8) :
    lookup ps.reverse key = ps.lookup key := by
  have hreverse : (ps.reverse.map Prod.fst).Nodup := by
    rw [List.map_reverse]
    exact List.nodup_reverse.mpr hdistinct
  cases hforward : ps.lookup key with
  | some value => exact lookup_of_mem hreverse (List.mem_reverse.mpr (mem_of_lookup hforward))
  | none =>
      cases hbackward : lookup ps.reverse key with
      | none => rfl
      | some value =>
          rw [← hforward]
          exact (lookup_of_mem hdistinct (List.mem_reverse.mp (mem_of_lookup hbackward))).symm

theorem mem_keys_iff (headers : HeaderMap) (key : List UInt8) :
    key ∈ headers.map Prod.fst ↔ (headers.lookup key).isSome = true := by
  rw [← has_eq, has, List.any_eq_true, List.mem_map]
  simp only [decide_eq_true_eq]

theorem mem_set {headers : HeaderMap} {key value : List UInt8} {p : List UInt8 × List UInt8}
    (h : p ∈ headers.set key value) : p = (key, value) ∨ p ∈ headers := by
  induction headers with
  | nil => simpa [set] using h
  | cons q rest ih =>
      rw [set] at h
      split_ifs at h with hkey hlt
      · rw [List.mem_cons] at h
        exact h.imp (fun heq => hkey ▸ heq) (List.mem_cons_of_mem q)
      · exact List.mem_cons.mp h
      · rw [List.mem_cons] at h ⊢
        rcases h with h | h
        · exact .inr (.inl h)
        · exact (ih h).imp_right .inr

/-- The keys of a map are in their order. -/
def Sorted (headers : HeaderMap) : Prop := (headers.map Prod.fst).Pairwise (· < ·)

theorem Sorted.set {headers : HeaderMap} (h : headers.Sorted) (key value : List UInt8) :
    (headers.set key value).Sorted := by
  induction headers with
  | nil => simp [HeaderMap.set, Sorted]
  | cons p rest ih =>
      simp only [Sorted, List.map_cons, List.pairwise_cons] at h ih
      rw [HeaderMap.set]
      split_ifs with hkey hlt
      · simpa [Sorted] using h
      · simp only [Sorted, List.map_cons, List.pairwise_cons, List.mem_cons]
        refine ⟨?_, h⟩
        rintro k (rfl | hk)
        · exact hlt
        · exact List.lt_trans hlt (h.1 k hk)
      · simp only [Sorted, List.map_cons, List.pairwise_cons]
        refine ⟨fun k hk => ?_, ih h.2⟩
        obtain ⟨q, hq, rfl⟩ := List.mem_map.mp hk
        rcases mem_set hq with rfl | hq
        · by_contra hle
          exact hkey (List.le_antisymm hle hlt)
        · exact h.1 q.1 (List.mem_map_of_mem hq)

theorem Sorted.nodup {headers : HeaderMap} (h : headers.Sorted) : (headers.map Prod.fst).Nodup := by
  refine List.Pairwise.imp ?_ h
  rintro k _ hlt rfl
  exact List.lt_irrefl k hlt

theorem Sorted.mem_iff {headers : HeaderMap} (h : headers.Sorted) (p : List UInt8 × List UInt8) :
    p ∈ headers ↔ headers.lookup p.1 = some p.2 :=
  ⟨lookup_of_mem h.nodup, mem_of_lookup⟩

end HeaderMap

/-- A request as the servlets see it. -/
structure HttpRequest where
  rawRequest : RawHttpRequest
  url : List UInt8
  fragment : List UInt8
  body : List UInt8
  parameters : HeaderMap
  cookies : HeaderMap

/-- The url as `DecodeUrlAndBody` cuts it, with the query that it hands to `ParseKV`. -/
structure UrlParts where
  url : List UInt8
  query : Option (List UInt8)
  fragment : List UInt8

namespace HttpRequest

/-- `find_last_of`. -/
def findLastOf (c : UInt8) (s : List UInt8) : Option Nat := (s.reverse.idxOf? c).map fun i => s.length - 1 - i

def parseKV (kvStr : List UInt8) (m : HeaderMap) (kDelim kvDelim : UInt8) : HeaderMap :=
  match _hkey : kvStr.idxOf? kDelim with
  | none => m
  | some keypos =>
      match (kvStr.drop (keypos + 1)).idxOf? kvDelim with
      | none => m.set (kvStr.take keypos) (kvStr.drop (keypos + 1))
      | some offset =>
          let valuepos := keypos + 1 + offset
          let kv := kvStr.take valuepos
          parseKV (kvStr.drop (valuepos + 1)) (m.set (kv.take keypos) (kv.drop (keypos + 1))) kDelim kvDelim
termination_by kvStr.length
decreasing_by
  have hmem : kDelim ∈ kvStr := by
    by_contra hnone
    rw [List.idxOf?_eq_none_iff.mpr hnone] at _hkey
    cases _hkey
  have hpos := List.length_pos_of_mem hmem
  rw [List.length_drop]
  omega

/-- The part of `DecodeUrlAndBody` that cuts the decoded url. -/
def splitUrl (url : List UInt8) : UrlParts :=
  let (fragment, view) :=
    match findLastOf 35 url with
    | some pos => (url.drop (pos + 1), url.take pos)
    | none => ([], url)
  match view.idxOf? 63 with
  | some pos => ⟨url.take pos, some (view.drop (pos + 1)), fragment⟩
  | none => ⟨url, none, fragment⟩

/-- The constructor, which is `DecodeUrlAndBody`. -/
def ofRaw (rawRequest : RawHttpRequest) : HttpRequest :=
  let parts := splitUrl (urlDecode rawRequest.url)
  let parameters :=
    match parts.query with
    | some query => parseKV query [] 61 38
    | none => []
  let cookies :=
    if rawRequest.headers.has (ascii "Cookie") then parseKV (rawRequest.headers.get (ascii "Cookie")) [] 61 59 else []
  let body := urlDecode rawRequest.body
  { rawRequest, url := parts.url, fragment := parts.fragment, body, cookies
    parameters := parseKV body parameters 61 38 }

def isKeepAlive (r : HttpRequest) : Bool :=
  if r.rawRequest.headers.has (ascii "Connection") then
    r.rawRequest.headers.get (ascii "Connection") = ascii "keep-alive"
  else r.rawRequest.version = ascii "HTTP/1.1"

section Cutting

variable {c : UInt8} {before behind : List UInt8}

theorem idxOf_append_cons (h : c ∉ before) (behind : List UInt8) :
    (before ++ c :: behind).idxOf? c = some before.length := by
  induction before with
  | nil => simp [List.idxOf?_cons]
  | cons b before ih =>
      simp only [List.mem_cons, not_or] at h
      simp [List.idxOf?_cons, Ne.symm h.1, ih h.2]

theorem findLastOf_append_cons (h : c ∉ behind) (before : List UInt8) :
    findLastOf c (before ++ c :: behind) = some before.length := by
  have hreverse : (before ++ c :: behind).reverse = behind.reverse ++ c :: before.reverse := by simp
  rw [findLastOf, hreverse, idxOf_append_cons (by simpa using h)]
  simp only [Option.map_some, List.length_append, List.length_cons, List.length_reverse, Option.some.injEq]
  omega

theorem findLastOf_none {s : List UInt8} (h : c ∉ s) : findLastOf c s = none := by
  rw [findLastOf, List.idxOf?_eq_none_iff.mpr (by simpa using h), Option.map_none]

theorem drop_behind (before : List UInt8) (c : UInt8) (behind : List UInt8) :
    (before ++ c :: behind).drop (before.length + 1) = behind := by
  rw [List.drop_append, List.drop_eq_nil_of_le (by omega), Nat.add_sub_cancel_left, List.nil_append, List.drop_one,
    List.tail_cons]

end Cutting

/-- `ParseKV` enters the pairs that the text holds, one after the other. -/
theorem parseKV_reads {kDelim kvDelim : UInt8} {text : List UInt8} {ps : HeaderMap} (h : Reads kDelim kvDelim text ps)
    (m : HeaderMap) : parseKV text m kDelim kvDelim = ps.foldl (fun m p => m.set p.1 p.2) m := by
  induction h generalizing m with
  | stop hnone =>
      rw [parseKV]
      split
      · rfl
      · next keypos hkey =>
          rw [List.idxOf?_eq_none_iff.mpr hnone] at hkey
          cases hkey
  | @last key value hkey hvalue =>
      rw [parseKV]
      split
      · next hnone =>
          rw [idxOf_append_cons hkey] at hnone
          cases hnone
      · next keypos hpos =>
          rw [idxOf_append_cons hkey] at hpos
          cases hpos
          rw [drop_behind, List.idxOf?_eq_none_iff.mpr hvalue]
          simp
  | @more key value rest ps hkey hvalue later ih =>
      rw [parseKV]
      split
      · next hnone =>
          rw [idxOf_append_cons hkey] at hnone
          cases hnone
      · next keypos hpos =>
          rw [idxOf_append_cons hkey] at hpos
          cases hpos
          rw [drop_behind, idxOf_append_cons hvalue]
          have hwhole : key ++ kDelim :: (value ++ kvDelim :: rest) = (key ++ kDelim :: value) ++ kvDelim :: rest := by
            simp
          have hlength : key.length + 1 + value.length = (key ++ kDelim :: value).length := by
            simp only [List.length_append, List.length_cons]
            omega
          simp only [List.foldl_cons]
          rw [← ih, hlength, hwhole, drop_behind, List.take_left, List.take_left, drop_behind]

theorem lookup_parseKV {text : List UInt8} {ps : HeaderMap} {kDelim kvDelim : UInt8}
    (hreads : Reads kDelim kvDelim text ps) (key : List UInt8) :
    (parseKV text [] kDelim kvDelim).lookup key = HeaderMap.lookup ps.reverse key := by
  rw [parseKV_reads hreads, HeaderMap.lookup_foldl]
  exact Option.or_none

end HttpRequest

end Libcold
