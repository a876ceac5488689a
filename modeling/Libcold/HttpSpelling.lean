import Libcold.HttpDelivery
import Libcold.HttpSession
import Libcold.WebSocketServer
import Mathlib.Data.Finset.Image

namespace Libcold

open SpanCalls HttpRequestParser HttpParser HttpSegmentation HttpCommon Delimited

namespace HttpCommon

def toLower (b : UInt8) : UInt8 := if 65 ≤ b ∧ b ≤ 90 then b + 32 else b

theorem toLower_toUpper (b : UInt8) :
    toUpper (toLower b) = toUpper b ∧ toLower (toUpper b) = toLower b ∧ toLower (toLower b) = toLower b := by
  have hall : ∀ n : Fin 256, toUpper (toLower (UInt8.ofNat n)) = toUpper (UInt8.ofNat n) ∧
      toLower (toUpper (UInt8.ofNat n)) = toLower (UInt8.ofNat n) ∧
        toLower (toLower (UInt8.ofNat n)) = toLower (UInt8.ofNat n) := by
    decide +kernel
  simpa using hall ⟨b.toNat, b.toNat_lt⟩

theorem spells_lower (name : List UInt8) : Spells name (name.map toLower) := by
  rw [Spells, List.map_map]
  exact List.map_congr_left fun b _ => (toLower_toUpper b).1

theorem lower_upper (name : List UInt8) : (name.map toUpper).map toLower = name.map toLower := by
  rw [List.map_map]
  exact List.map_congr_left fun b _ => (toLower_toUpper b).2.1

theorem lower_lower (name : List UInt8) : (name.map toLower).map toLower = name.map toLower := by
  rw [List.map_map]
  exact List.map_congr_left fun b _ => (toLower_toUpper b).2.2

end HttpCommon

/-- The fields that are picked are spelled as the picks say, and all others in lower case. -/
def respell (picks : Fields) (p : List UInt8 × List UInt8) : List UInt8 :=
  match picks.find? fun pick => Spells pick.1 p.1 ∧ p.2 = pick.2 with
  | some pick => pick.1
  | none => p.1.map toLower

section Picks

variable {picks ps : Fields} {p : List UInt8 × List UInt8} {key value : List UInt8}

theorem respell_cases (picks : Fields) (p : List UInt8 × List UInt8) :
    (∃ pick ∈ picks, Spells pick.1 p.1 ∧ p.2 = pick.2 ∧ respell picks p = pick.1) ∨
      respell picks p = p.1.map toLower := by
  rw [respell]
  cases hfind : picks.find? fun pick => Spells pick.1 p.1 ∧ p.2 = pick.2 with
  | none => exact .inr rfl
  | some pick =>
      have hpick := List.find?_some hfind
      rw [decide_eq_true_eq] at hpick
      exact .inl ⟨pick, List.mem_of_find?_eq_some hfind, hpick.1, hpick.2, rfl⟩

theorem spells_respell (picks : Fields) (p : List UInt8 × List UInt8) : Spells p.1 (respell picks p) := by
  rcases respell_cases picks p with ⟨pick, -, hname, -, heq⟩ | heq
  · rw [heq]
    exact hname.symm
  · rw [heq]
    exact spells_lower p.1

/-- A name with an upper case letter is found where it was picked, and nowhere else. -/
theorem of_respell_eq (hupper : key.map toLower ≠ key) (h : respell picks p = key) :
    ∃ pick ∈ picks, pick.1 = key ∧ p.2 = pick.2 := by
  rcases respell_cases picks p with ⟨pick, hpick, -, hvalue, heq⟩ | heq
  · exact ⟨pick, hpick, heq.symm.trans h, hvalue⟩
  · rw [heq] at h
    exact absurd (by rw [← h, lower_lower]) hupper

theorem lookup_respell_none (hupper : key.map toLower ≠ key) (hnone : ∀ pick ∈ picks, pick.1 ≠ key) (ps : Fields) :
    HeaderMap.lookup (ps.map fun p => (respell picks p, p.2)).reverse key = none := by
  rw [← Option.not_isSome_iff_eq_none, ← HeaderMap.mem_keys_iff, List.map_reverse, List.mem_reverse, List.map_map,
    List.mem_map]
  rintro ⟨p, -, heq⟩
  obtain ⟨pick, hpick, hkey, -⟩ := of_respell_eq hupper heq
  exact hnone pick hpick hkey

theorem lookup_respell_some (hupper : key.map toLower ≠ key) (hpick : (key, value) ∈ picks)
    (honly : ∀ pick ∈ picks, Spells key pick.1 → pick = (key, value)) (hp : p ∈ ps) (hname : Spells key p.1)
    (hvalue : p.2 = value) :
    HeaderMap.lookup (ps.map fun p => (respell picks p, p.2)).reverse key = some value := by
  have hrespell : respell picks p = key := by
    rw [respell]
    cases hfind : picks.find? fun pick => Spells pick.1 p.1 ∧ p.2 = pick.2 with
    | none =>
        have hno := List.find?_eq_none.mp hfind (key, value) hpick
        simp only [decide_eq_true_eq] at hno
        exact absurd ⟨hname, hvalue⟩ hno
    | some pick =>
        have hsome := List.find?_some hfind
        rw [decide_eq_true_eq] at hsome
        rw [honly pick (List.mem_of_find?_eq_some hfind) (hsome.1.symm.trans hname)]
  have hfound : (HeaderMap.lookup (ps.map fun p => (respell picks p, p.2)).reverse key).isSome = true := by
    rw [← HeaderMap.mem_keys_iff, List.map_reverse, List.mem_reverse, List.map_map]
    exact List.mem_map.mpr ⟨p, hp, hrespell⟩
  obtain ⟨found, hlookup⟩ := Option.isSome_iff_exists.mp hfound
  have hmem := List.mem_reverse.mp (HeaderMap.mem_of_lookup hlookup)
  obtain ⟨q, -, heq⟩ := List.mem_map.mp hmem
  obtain ⟨hkey, hq⟩ := Prod.mk.inj heq
  obtain ⟨pick, hmem, hsame, hother⟩ := of_respell_eq hupper hkey
  rw [hlookup, ← hq, hother, honly pick hmem (by rw [hsame]; rfl)]

end Picks

theorem Overfull.of_map {limits : HttpLimits} {names : List (List UInt8)} {g : List UInt8 → List UInt8}
    (h : Overfull limits (names.map g)) :
    Overfull limits names := by
  obtain ⟨hsome, hle⟩ := h
  refine ⟨fun hnil => hsome (by rw [hnil, List.map_nil]), hle.trans ?_⟩
  have himage : (names.map g).dropLast.toFinset = names.dropLast.toFinset.image g := by
    ext name
    simp [← List.map_dropLast]
  rw [himage]
  exact Finset.card_image_le

namespace HttpMessage

variable {limits : HttpLimits} {m m' : HttpMessage}

def fields (m : HttpMessage) : Fields := m.headers ++ m.trailers

/-- The message with its names spelled otherwise. -/
def recase (m : HttpMessage) (spelling : List UInt8 × List UInt8 → List UInt8) (h : ∀ p, Spells p.1 (spelling p)) :
    HttpMessage where
  method := m.method
  url := m.url
  version := m.version
  headers := m.headers.map fun p => (spelling p, p.2)
  body := m.body
  trailers := m.trailers.map fun p => (spelling p, p.2)
  named := by
    rw [← List.map_append]
    rintro q hq hnil
    obtain ⟨p, hp, rfl⟩ := List.mem_map.mp hq
    have hupper := h p
    rw [Spells, show spelling p = [] from hnil, List.map_nil, eq_comm, List.map_eq_nil_iff] at hupper
    exact m.named p hp hupper
  length := by
    rw [← List.map_append]
    rintro q hq hlength
    obtain ⟨p, hp, rfl⟩ := List.mem_map.mp hq
    exact m.length p hp ((h p).symm.trans hlength)

theorem recased_recase (m : HttpMessage) {spelling : List UInt8 × List UInt8 → List UInt8}
    (h : ∀ p, Spells p.1 (spelling p)) : Recased m (m.recase spelling h) := by
  have hfields (ps : Fields) :
      List.Forall₂ (fun p q => Spells p.1 q.1 ∧ q.2 = p.2) ps (ps.map fun p => (spelling p, p.2)) := by
    rw [List.forall₂_map_right_iff]
    exact List.forall₂_same.mpr fun p _ => ⟨h p, rfl⟩
  exact ⟨rfl, rfl, rfl, hfields m.headers, rfl, hfields m.trailers⟩

theorem fields_recase (m : HttpMessage) {spelling : List UInt8 × List UInt8 → List UInt8}
    (h : ∀ p, Spells p.1 (spelling p)) : (m.recase spelling h).fields = m.fields.map fun p => (spelling p, p.2) :=
  List.map_append.symm

/-- Each field of a spelling spells one of the message. -/
theorem Recased.fields (h : Recased m m') :
    List.Forall₂ (fun p q => Spells p.1 q.1 ∧ q.2 = p.2) m.fields m'.fields :=
  List.rel_append h.headers h.trailers

theorem exists_spelled {ps qs : Fields} (h : List.Forall₂ (fun p q => Spells p.1 q.1 ∧ q.2 = p.2) ps qs)
    {q : List UInt8 × List UInt8} (hq : q ∈ qs) : ∃ p ∈ ps, Spells p.1 q.1 ∧ q.2 = p.2 := by
  induction h with
  | nil => cases hq
  | @cons p r ps qs hfirst _ ih =>
      rcases List.mem_cons.mp hq with rfl | hq
      · exact ⟨p, List.mem_cons_self, hfirst⟩
      · obtain ⟨p', hp', hspelled⟩ := ih hq
        exact ⟨p', List.mem_cons_of_mem p hp', hspelled⟩

theorem flip_spelled {ps qs : Fields} (h : List.Forall₂ (fun p q => Spells p.1 q.1 ∧ q.2 = p.2) ps qs) :
    List.Forall₂ (fun p q => Spells p.1 q.1 ∧ q.2 = p.2) qs ps :=
  (h.imp fun _ _ hpq => ⟨hpq.1.symm, hpq.2.symm⟩).flip

theorem Recased.symm (h : Recased m m') : Recased m' m :=
  ⟨h.method.symm, h.url.symm, h.version.symm, flip_spelled h.headers, h.body.symm, flip_spelled h.trailers⟩

theorem split_spelled {before after ps : Fields} {p : List UInt8 × List UInt8}
    (h : List.Forall₂ (fun p q => Spells p.1 q.1 ∧ q.2 = p.2) (before ++ p :: after) ps) :
    ∃ before' p' after', ps = before' ++ p' :: after' ∧ Spells p.1 p'.1 ∧
      List.Forall₂ (fun p q => Spells p.1 q.1 ∧ q.2 = p.2) (before ++ after) (before' ++ after') := by
  induction before generalizing ps with
  | nil =>
      obtain ⟨p', after', hfirst, hrest, rfl⟩ := List.forall₂_cons_left_iff.mp h
      exact ⟨[], p', after', rfl, hfirst.1, hrest⟩
  | cons q before ih =>
      obtain ⟨q', ps', hfirst, hrest, rfl⟩ := List.forall₂_cons_left_iff.mp h
      obtain ⟨before', p', after', rfl, hname, hothers⟩ := ih hrest
      exact ⟨q' :: before', p', after', rfl, hname, .cons hfirst hothers⟩

theorem Recased.accepted (h : Recased m m') (haccepted : m.Accepted) : m'.Accepted := by
  constructor
  · intro before p after heq hlength q hq hother
    have hfields := h.symm.fields
    rw [show m'.fields = before ++ p :: after from heq] at hfields
    obtain ⟨before', p', after', heq', hname, hothers⟩ := split_spelled hfields
    obtain ⟨q', hq', hspelled, -⟩ := exists_spelled (flip_spelled hothers) hq
    exact haccepted.once before' p' after' heq' (hname.trans hlength) q' hq' (hspelled.symm.trans hother)
  · intro q hq hlength
    obtain ⟨p, hp, hspelled, -⟩ := exists_spelled h.fields hq
    have htrailers := h.trailers
    rw [haccepted.unchunked p hp (hspelled.symm.trans hlength)] at htrailers
    exact List.forall₂_nil_left_iff.mp htrailers

/-- The names of a spelling, up to their case. -/
theorem Recased.upper (h : Recased m m') :
    m'.fields.map (fun p => p.1.map toUpper) = m.fields.map fun p => p.1.map toUpper := by
  have hfields := h.fields
  generalize m.fields = ps at hfields
  generalize m'.fields = qs at hfields
  induction hfields with
  | nil => rfl
  | cons hfirst _ ih => rw [List.map_cons, List.map_cons, ih, hfirst.1]

/-- Something of a fixed size is too long, or the url has `..` in it. -/
def Oversized (limits : HttpLimits) (m : HttpMessage) : Prop :=
  limits.maxUrlSize < m.url.length ∨ hasDots m.url = true ∨
    ∃ p ∈ m.fields, limits.maxHeaderFieldSize < p.1.length ∨ limits.maxHeaderValueSize < p.2.length

/-- There are too many names, even when those that differ in case count once. -/
def OverfullUncased (limits : HttpLimits) (m : HttpMessage) : Prop :=
  Overfull limits (m.fields.map fun p => p.1.map toUpper)

theorem Recased.oversized (h : Recased m m') (hm : m.Oversized limits) : m'.Oversized limits := by
  rcases hm with hurl | hdots | ⟨p, hp, hlong⟩
  · exact .inl (h.url ▸ hurl)
  · exact .inr (.inl (h.url ▸ hdots))
  · obtain ⟨q, hq, hname, hvalue⟩ := exists_spelled h.symm.fields hp
    have hlength : q.1.length = p.1.length := by simpa using (congrArg List.length hname).symm
    exact .inr (.inr ⟨q, hq, by rwa [hlength, ← hvalue]⟩)

theorem fits_iff : m.Fits limits ↔ ¬ m.Oversized limits ∧ ¬ Overfull limits (m.fields.map Prod.fst) ∧
    (m.body ≠ [] → (∃ p ∈ m.headers, p.1 = ascii "Content-Length") ∧ m.body.length ≤ limits.maxBodySize) := by
  constructor
  · intro h
    refine ⟨?_, h.count, h.body⟩
    rintro (hurl | hdots | ⟨p, hp, hlong⟩)
    · exact hurl.not_ge h.url.1
    · simp [h.url.2] at hdots
    · have hsmall := h.field p hp
      omega
  · rintro ⟨hsize, hcount, hbody⟩
    simp only [Oversized, not_or, not_lt, Bool.not_eq_true, not_exists, not_and] at hsize
    exact ⟨⟨hsize.1, hsize.2.1⟩, hsize.2.2, hcount, hbody⟩

/-- A spelling in which names that differ in case are spelled alike has no more names
than that takes. -/
theorem fits_recase {spelling : List UInt8 × List UInt8 → List UInt8} (h : ∀ p, Spells p.1 (spelling p))
    (g : List UInt8 → List UInt8) (hg : ∀ p ∈ m.fields, spelling p = g (p.1.map toUpper))
    (hsize : ¬ m.Oversized limits) (hcount : ¬ m.OverfullUncased limits)
    (hbody : m.body ≠ [] →
      (∃ p ∈ m.headers, spelling p = ascii "Content-Length") ∧ m.body.length ≤ limits.maxBodySize) :
    (m.recase spelling h).Fits limits := by
  refine fits_iff.mpr ⟨fun hlarge => hsize ((recased_recase m h).symm.oversized hlarge), fun hover => hcount ?_, ?_⟩
  · have hnames : (m.recase spelling h).fields.map Prod.fst = (m.fields.map fun p => p.1.map toUpper).map g := by
      rw [fields_recase, List.map_map, List.map_map]
      exact List.map_congr_left hg
    rw [hnames] at hover
    exact hover.of_map
  · intro hsome
    obtain ⟨⟨p, hp, hname⟩, hlength⟩ := hbody hsome
    exact ⟨⟨_, List.mem_map_of_mem hp, hname⟩, hlength⟩

/-- Where the case of the names matters, nothing is said in the fields. -/
structure Indifferent (m : HttpMessage) : Prop where
  connection : ∀ p ∈ m.fields, Spells (ascii "Connection") p.1 →
    (p.2 = ascii "keep-alive" ↔ m.version = some (ascii "1.1"))
  cookie : ∀ p ∈ m.fields, Spells (ascii "Cookie") p.1 → 61 ∉ p.2
  upgrade : ¬ ((∃ p ∈ m.fields, Spells (ascii "Connection") p.1 ∧ p.2 = ascii "Upgrade") ∧
    (∃ p ∈ m.fields, Spells (ascii "Upgrade") p.1 ∧ p.2 = ascii "websocket") ∧
      ∃ p ∈ m.fields, Spells (ascii "Sec-WebSocket-Key") p.1)

/-- The case of the names does not matter: the message is refused in every spelling, or
in none and what is looked up is not there. -/
def CaseFree (limits : HttpLimits) (m : HttpMessage) : Prop :=
  m.Oversized limits ∨ m.OverfullUncased limits ∨
    (m.body ≠ [] ∧ ((∀ p ∈ m.headers, ¬ IsLength p) ∨ limits.maxBodySize < m.body.length)) ∨
      (m.body = [] ∧ (∀ m', Recased m m' → ¬ Overfull limits (m'.fields.map Prod.fst)) ∧ m.Indifferent)

theorem version_line (m : HttpMessage) : m.line.version = ascii "HTTP/1.1" ↔ m.version = some (ascii "1.1") := by
  have hwhole : ascii "HTTP/1.1" = ascii "HTTP/" ++ ascii "1.1" := rfl
  rw [line, hwhole]
  cases m.version with
  | none => exact iff_of_false (show [] ≠ ascii "HTTP/" ++ ascii "1.1" by decide) (by simp)
  | some version => simp

theorem lookup_whole (m : HttpMessage) (key : List UInt8) :
    m.whole.headers.lookup key = HeaderMap.lookup m.fields.reverse key := HeaderMap.lookup_ofFields m.fields key

end HttpMessage

/-- Two requests that are the same to the server. -/
structure SameRequest (r r' : RawHttpRequest) : Prop where
  body : r'.body = r.body
  keepAlive : (HttpRequest.ofRaw r').isKeepAlive = (HttpRequest.ofRaw r).isKeepAlive
  cookies : (HttpRequest.ofRaw r').cookies = (HttpRequest.ofRaw r).cookies
  session : ∀ manager, Http.Handling.named manager (.ofRaw r') = Http.Handling.named manager (.ofRaw r)
  upgrade : WebSocketServer.checkWhetherUpgradeRequest r' = WebSocketServer.checkWhetherUpgradeRequest r

theorem SameRequest.between {r a b : RawHttpRequest} (ha : SameRequest r a) (hb : SameRequest r b) : SameRequest a b :=
  ⟨hb.body.trans ha.body.symm, hb.keepAlive.trans ha.keepAlive.symm, hb.cookies.trans ha.cookies.symm,
    fun manager => (hb.session manager).trans (ha.session manager).symm, hb.upgrade.trans ha.upgrade.symm⟩

section Lookups

variable (r : RawHttpRequest)

theorem isKeepAlive_ofRaw :
    (HttpRequest.ofRaw r).isKeepAlive =
      match r.headers.lookup (ascii "Connection") with
      | some value => decide (value = ascii "keep-alive")
      | none => decide (r.version = ascii "HTTP/1.1") := by
  rw [HttpRequest.isKeepAlive, HttpRequest.ofRaw]
  dsimp only
  rw [HeaderMap.has_eq, HeaderMap.get_eq]
  cases r.headers.lookup (ascii "Connection") <;> rfl

theorem cookies_ofRaw :
    (HttpRequest.ofRaw r).cookies =
      match r.headers.lookup (ascii "Cookie") with
      | some value => HttpRequest.parseKV value [] 61 59
      | none => [] := by
  rw [HttpRequest.ofRaw]
  dsimp only
  rw [HeaderMap.has_eq, HeaderMap.get_eq]
  cases r.headers.lookup (ascii "Cookie") <;> rfl

theorem checkWhetherUpgradeRequest_iff :
    WebSocketServer.checkWhetherUpgradeRequest r = true ↔
      r.headers.lookup (ascii "Connection") = some (ascii "Upgrade") ∧
        r.headers.lookup (ascii "Upgrade") = some (ascii "websocket") ∧
          (r.headers.lookup (ascii "Sec-WebSocket-Key")).isSome = true := by
  have hget {key value : List UInt8} (hvalue : value ≠ []) :
      r.headers.get key = value ↔ r.headers.lookup key = some value := by
    rw [HeaderMap.get_eq]
    cases r.headers.lookup key with
    | none => simpa using hvalue.symm
    | some found => simp
  rw [WebSocketServer.checkWhetherUpgradeRequest, Bool.and_eq_true, Bool.and_eq_true, decide_eq_true_eq,
    decide_eq_true_eq, hget (by decide), hget (by decide), HeaderMap.has_eq, and_assoc]

theorem parseKV_eq_nil_iff (text : List UInt8) : HttpRequest.parseKV text [] 61 59 = [] ↔ 61 ∉ text := by
  constructor
  · intro hnil hequal
    obtain ⟨key, behind, rfl, hkey⟩ := List.eq_append_cons_of_mem hequal
    obtain ⟨value, ps, hreads⟩ := exists_reads_cons 59 hkey behind
    have hlookup := HttpRequest.lookup_parseKV hreads key
    rw [hnil] at hlookup
    have hfound : (HeaderMap.lookup ((key, value) :: ps).reverse key).isSome = true := by
      rw [← HeaderMap.mem_keys_iff]
      simp
    rw [← hlookup] at hfound
    cases hfound
  · intro hnone
    exact HttpRequest.parseKV_reads (.stop hnone) []

end Lookups

namespace HttpMessage

variable {limits : HttpLimits} {m m' : HttpMessage}

/-- What is found in a spelling stands in the message. -/
theorem Recased.exists_field (h : Recased m m') {key value : List UInt8}
    (hlookup : m'.whole.headers.lookup key = some value) : ∃ p ∈ m.fields, Spells key p.1 ∧ p.2 = value := by
  rw [lookup_whole] at hlookup
  obtain ⟨p, hp, hname, hvalue⟩ := exists_spelled h.fields (List.mem_reverse.mp (HeaderMap.mem_of_lookup hlookup))
  exact ⟨p, hp, hname.symm, hvalue.symm⟩

theorem Indifferent.keepAlive (hm : m.Indifferent) (h : Recased m m') :
    (HttpRequest.ofRaw m'.whole).isKeepAlive = decide (m.version = some (ascii "1.1")) := by
  rw [isKeepAlive_ofRaw]
  cases hlookup : m'.whole.headers.lookup (ascii "Connection") with
  | none =>
      have hversion := version_line m'
      rw [h.version] at hversion
      exact decide_eq_decide.mpr hversion
  | some value =>
      obtain ⟨p, hp, hname, rfl⟩ := h.exists_field hlookup
      exact decide_eq_decide.mpr (hm.connection p hp hname)

theorem Indifferent.cookies (hm : m.Indifferent) (h : Recased m m') : (HttpRequest.ofRaw m'.whole).cookies = [] := by
  rw [cookies_ofRaw]
  cases hlookup : m'.whole.headers.lookup (ascii "Cookie") with
  | none => rfl
  | some value =>
      obtain ⟨p, hp, hname, rfl⟩ := h.exists_field hlookup
      exact (parseKV_eq_nil_iff p.2).mpr (hm.cookie p hp hname)

theorem Indifferent.not_upgrade (hm : m.Indifferent) (h : Recased m m') :
    WebSocketServer.checkWhetherUpgradeRequest m'.whole = false := by
  rw [← Bool.not_eq_true, checkWhetherUpgradeRequest_iff]
  rintro ⟨hconnection, hupgrade, hkey⟩
  obtain ⟨value, hvalue⟩ := Option.isSome_iff_exists.mp hkey
  obtain ⟨p, hp, hname, -⟩ := h.exists_field hvalue
  exact hm.upgrade ⟨h.exists_field hconnection, h.exists_field hupgrade, p, hp, hname⟩

theorem Indifferent.same (hm : m.Indifferent) (h : Recased m m') : SameRequest m.whole m'.whole := by
  have hcookies := (hm.cookies h).trans (hm.cookies (.refl m)).symm
  refine ⟨h.body, (hm.keepAlive h).trans (hm.keepAlive (.refl m)).symm, hcookies, fun manager => ?_,
    (hm.not_upgrade h).trans (hm.not_upgrade (.refl m)).symm⟩
  rw [Http.Handling.named, Http.Handling.named, hcookies]

/-- All spellings of the message come to the same. -/
def SameInAll (limits : HttpLimits) (m : HttpMessage) : Prop :=
  ∀ m', Recased m m' → Option.Rel SameRequest (m.request limits) (m'.request limits)

theorem request_of_fits (haccepted : m.Accepted) (h : m.Fits limits) : m.request limits = some m.whole :=
  (request_eq_some_iff haccepted).mpr ⟨h, rfl⟩

theorem request_of_not_fits (haccepted : m.Accepted) (h : ¬ m.Fits limits) : m.request limits = none := by
  cases hrequest : m.request limits with
  | none => rfl
  | some r => exact absurd ((request_eq_some_iff haccepted).mp hrequest).1 h

theorem sameInAll_of_refused (haccepted : m.Accepted) (h : ∀ m', Recased m m' → ¬ m'.Fits limits) :
    m.SameInAll limits := by
  intro m' hsame
  rw [request_of_not_fits haccepted (h m (.refl m)), request_of_not_fits (hsame.accepted haccepted) (h m' hsame)]
  exact .none

/-- When a spelling is taken, all are, and they are the same. -/
theorem SameInAll.of_fits (hm : m.SameInAll limits) (haccepted : m.Accepted) (h : Recased m m') (hfits : m'.Fits limits)
    {m'' : HttpMessage} (h' : Recased m m'') : m''.Fits limits ∧ SameRequest m'.whole m''.whole := by
  have hfirst := hm m' h
  have hsecond := hm m'' h'
  rw [request_of_fits (h.accepted haccepted) hfits] at hfirst
  cases hrequest : m.request limits with
  | none =>
      rw [hrequest] at hfirst
      cases hfirst
  | some r =>
      rw [hrequest] at hfirst hsecond
      cases hother : m''.request limits with
      | none =>
          rw [hother] at hsecond
          cases hsecond
      | some r' =>
          rw [hother] at hsecond
          obtain ⟨hfits', rfl⟩ := (request_eq_some_iff (h'.accepted haccepted)).mp hother
          cases hfirst with
          | some hfirst =>
              cases hsecond with
              | some hsecond => exact ⟨hfits', hfirst.between hsecond⟩

/-- The spelling that the picks make. -/
def picked (m : HttpMessage) (picks : Fields) : HttpMessage := m.recase (respell picks) (spells_respell picks)

theorem recased_picked (m : HttpMessage) (picks : Fields) : Recased m (m.picked picks) := recased_recase m _

theorem lookup_picked (m : HttpMessage) (picks : Fields) (key : List UInt8) :
    (m.picked picks).whole.headers.lookup key =
      HeaderMap.lookup (m.fields.map fun p => (respell picks p, p.2)).reverse key := by
  rw [lookup_whole, picked, fields_recase]

theorem fits_lower (hbody : m.body = []) (hsize : ¬ m.Oversized limits) (hcount : ¬ m.OverfullUncased limits) :
    (m.picked []).Fits limits :=
  fits_recase (spells_respell []) (List.map toLower) (fun p _ => (lower_upper p.1).symm) hsize hcount
    fun h => absurd hbody h

/-- A message that is taken in lower case comes to the same in all spellings only when
it is indifferent. -/
theorem SameInAll.indifferent (hm : m.SameInAll limits) (haccepted : m.Accepted) (hfits : (m.picked []).Fits limits) :
    m.Indifferent := by
  have hsame (picks : Fields) : SameRequest (m.picked []).whole (m.picked picks).whole :=
    (hm.of_fits haccepted (recased_picked m []) hfits (recased_picked m picks)).2
  have hnone {key : List UInt8} (hupper : key.map toLower ≠ key) : (m.picked []).whole.headers.lookup key = none := by
    rw [lookup_picked]
    exact lookup_respell_none hupper (by simp) m.fields
  have hsome {key : List UInt8} (hupper : key.map toLower ≠ key) {p : List UInt8 × List UInt8} (hp : p ∈ m.fields)
      (hname : Spells key p.1) : (m.picked [(key, p.2)]).whole.headers.lookup key = some p.2 := by
    rw [lookup_picked]
    exact lookup_respell_some hupper (List.mem_singleton_self _) (by simp) hp hname rfl
  constructor
  · intro p hp hname
    have hkeepAlive := (hsame [(ascii "Connection", p.2)]).keepAlive
    rw [isKeepAlive_ofRaw, isKeepAlive_ofRaw, hsome (by decide) hp hname, hnone (by decide)] at hkeepAlive
    exact (decide_eq_decide.mp hkeepAlive).trans (version_line (m.picked []))
  · intro p hp hname
    have hcookies := (hsame [(ascii "Cookie", p.2)]).cookies
    rw [cookies_ofRaw, cookies_ofRaw, hsome (by decide) hp hname, hnone (by decide)] at hcookies
    exact (parseKV_eq_nil_iff p.2).mp hcookies
  · rintro ⟨⟨p, hp, hconnection, hvalue⟩, ⟨q, hq, hupgrade, hvalue'⟩, k, hk, hkey⟩
    let picks : Fields :=
      [(ascii "Connection", ascii "Upgrade"), (ascii "Upgrade", ascii "websocket"), (ascii "Sec-WebSocket-Key", k.2)]
    have honly {key value : List UInt8} (hmem : (key, value) ∈ picks) (pick) (hpick : pick ∈ picks)
        (hspells : Spells key pick.1) : pick = (key, value) := by
      simp only [picks, List.mem_cons, List.not_mem_nil, or_false, Prod.mk.injEq] at hmem hpick
      rcases hmem with ⟨rfl, rfl⟩ | ⟨rfl, rfl⟩ | ⟨rfl, rfl⟩ <;> rcases hpick with rfl | rfl | rfl <;>
        first
          | rfl
          | exact absurd (congrArg List.length hspells) (by simp [ascii])
    have htrue : WebSocketServer.checkWhetherUpgradeRequest (m.picked picks).whole = true := by
      have hfirst : (ascii "Connection", ascii "Upgrade") ∈ picks := by simp [picks]
      have hsecond : (ascii "Upgrade", ascii "websocket") ∈ picks := by simp [picks]
      have hthird : (ascii "Sec-WebSocket-Key", k.2) ∈ picks := by simp [picks]
      rw [checkWhetherUpgradeRequest_iff, lookup_picked, lookup_picked, lookup_picked,
        lookup_respell_some (by decide) hfirst (honly hfirst) hp hconnection hvalue,
        lookup_respell_some (by decide) hsecond (honly hsecond) hq hupgrade hvalue',
        lookup_respell_some (by decide) hthird (honly hthird) hk hkey rfl]
      exact ⟨rfl, rfl, rfl⟩
    rw [(hsame picks).upgrade, checkWhetherUpgradeRequest_iff, hnone (by decide)] at htrue
    cases htrue.1

theorem Accepted.only (haccepted : m.Accepted) {p q : List UInt8 × List UInt8} (hp : p ∈ m.fields)
    (hlength : IsLength p) (hq : q ∈ m.fields) (hlength' : IsLength q) : q = p := by
  obtain ⟨before, after, heq⟩ := List.append_of_mem hp
  rw [heq, List.mem_append, List.mem_cons] at hq
  by_contra hne
  refine haccepted.once before p after heq hlength q ?_ hlength'
  rw [List.mem_append]
  exact hq.imp_right fun hq => hq.resolve_left hne

/-- With the length spelled as it is looked up, a body of that length is taken. -/
theorem fits_length (haccepted : m.Accepted) {p : List UInt8 × List UInt8} (hp : p ∈ m.headers) (hlength : IsLength p)
    (hbody : m.body.length ≤ limits.maxBodySize) (hsize : ¬ m.Oversized limits) (hcount : ¬ m.OverfullUncased limits) :
    (m.picked [(ascii "Content-Length", p.2)]).Fits limits := by
  have hmem : p ∈ m.fields := List.mem_append_left _ hp
  have hspelled (q) (hq : q ∈ m.fields) : respell [(ascii "Content-Length", p.2)] q =
      if q.1.map toUpper = (ascii "Content-Length").map toUpper then ascii "Content-Length"
      else (q.1.map toUpper).map toLower := by
    by_cases hname : q.1.map toUpper = (ascii "Content-Length").map toUpper
    · obtain rfl := haccepted.only hmem hlength hq hname
      rw [if_pos hname, respell]
      simp [show Spells (ascii "Content-Length") q.1 from hname]
    · rw [if_neg hname, respell, lower_upper]
      simp [show ¬ Spells (ascii "Content-Length") q.1 from hname]
  refine fits_recase (spells_respell _) (fun u =>
    if u = (ascii "Content-Length").map toUpper then ascii "Content-Length" else u.map toLower) hspelled hsize hcount ?_
  exact fun _ => ⟨⟨p, hp, (hspelled p hmem).trans (if_pos hlength)⟩, hbody⟩

theorem sameInAll_iff (haccepted : m.Accepted) : m.SameInAll limits ↔ m.CaseFree limits := by
  constructor
  · intro hm
    rw [CaseFree, or_iff_not_imp_left, or_iff_not_imp_left]
    intro hsize hcount
    by_cases hbody : m.body = []
    · have hlower := fits_lower hbody hsize hcount
      refine .inr ⟨hbody, fun m' h => ?_, hm.indifferent haccepted hlower⟩
      exact (hm.of_fits haccepted (recased_picked m []) hlower h).1.count
    · refine .inl ⟨hbody, or_iff_not_imp_left.mpr fun hnamed => ?_⟩
      by_contra hshort
      simp only [not_forall, not_not, exists_prop] at hnamed
      obtain ⟨p, hp, hlength⟩ := hnamed
      have hfits := fits_length haccepted hp hlength (not_lt.mp hshort) hsize hcount
      have hlower := (hm.of_fits haccepted (recased_picked m _) hfits (recased_picked m [])).1
      obtain ⟨⟨q, hq, hname⟩, -⟩ := hlower.body hbody
      obtain ⟨r, -, rfl⟩ := List.mem_map.mp hq
      have hupper : (ascii "Content-Length").map toLower ≠ ascii "Content-Length" := by decide
      obtain ⟨pick, hpick, -⟩ := of_respell_eq hupper (show respell [] r = _ from hname)
      cases hpick
  · rintro (hsize | hcount | ⟨hbody, hlength⟩ | ⟨hbody, hcount, hindifferent⟩)
    · exact sameInAll_of_refused haccepted fun m' h hfits => (fits_iff.mp hfits).1 (h.oversized hsize)
    · refine sameInAll_of_refused haccepted fun m' h hfits => hfits.count (Overfull.of_map (g := List.map toUpper) ?_)
      rw [OverfullUncased, ← h.upper] at hcount
      rw [List.map_map]
      exact hcount
    · refine sameInAll_of_refused haccepted fun m' h hfits => ?_
      obtain ⟨⟨q, hq, hname⟩, hsmall⟩ := hfits.body (h.body ▸ hbody)
      rcases hlength with hnone | hlarge
      · obtain ⟨p, hp, hspelled, -⟩ := exists_spelled h.headers hq
        rw [hname] at hspelled
        exact hnone p hp hspelled.symm
      · rw [h.body] at hsmall
        omega
    · by_cases hsize : m.Oversized limits
      · exact sameInAll_of_refused haccepted fun m' h hfits => (fits_iff.mp hfits).1 (h.oversized hsize)
      · have hfits {m' : HttpMessage} (h : Recased m m') : m'.Fits limits :=
          fits_iff.mpr ⟨fun hlarge => hsize (h.symm.oversized hlarge), hcount m' h,
            fun hsome => absurd (h.body.trans hbody) hsome⟩
        intro m' h
        rw [request_of_fits haccepted (hfits (.refl m)), request_of_fits (h.accepted haccepted) (hfits h)]
        exact .some (hindifferent.same h)

end HttpMessage

namespace Llhttp

open HttpMessage Script

/-- llhttp reads the message in each of its spellings. -/
def ReadsSpellings (L : Llhttp) (m : HttpMessage) : Prop :=
  ∀ m', Recased m m' → ∃ chunks state, L.executeAll L.start chunks = (m'.events, some state)

/-- The message and each of its spellings get the same verdict, and the same request. -/
def CaseInsensitive (L : Llhttp) (limits : HttpLimits) (m : HttpMessage) : Prop :=
  ∀ m', Recased m m' → ∀ chunks chunks' state state' ok ok' (t t' : HttpParser L),
    L.executeAll L.start chunks = (m.events, some state) → L.executeAll L.start chunks' = (m'.events, some state') →
      ParseAll limits {} chunks (ok, t) → ParseAll limits {} chunks' (ok', t') →
        ok' = ok ∧ List.Forall₂ SameRequest t.self.requestQueue t'.self.requestQueue

variable {L : Llhttp} {limits : HttpLimits} {m m' : HttpMessage}

theorem parseAll_message {chunks : List (List UInt8)} {ok : Bool} {t : HttpParser L}
    (h : ParseAll limits ({} : HttpParser L) chunks (ok, t)) {state : L.State}
    (hevents : L.executeAll L.start chunks = (m.events, some state)) :
    t.self.requestQueue = (m.request limits).toList ∧ ok = (m.request limits).isSome := by
  have hsingle : L.executeAll L.start chunks = ([m].flatMap HttpMessage.events, some state) := by
    rw [hevents, List.flatMap_singleton]
  obtain ⟨hqueue, hok⟩ := parseAll_messages h hsingle
  rw [hqueue, hok, requests]
  cases m.request limits <;> exact ⟨rfl, rfl⟩

theorem rel_iff {r r' : Option RawHttpRequest} :
    Option.Rel SameRequest r r' ↔ r'.isSome = r.isSome ∧ List.Forall₂ SameRequest r.toList r'.toList := by
  constructor
  · rintro (hsame | _)
    · exact ⟨rfl, .cons hsame .nil⟩
    · exact ⟨rfl, .nil⟩
  · rintro ⟨hsome, hsame⟩
    cases r with
    | none =>
        cases r' with
        | none => exact .none
        | some r' => cases hsome
    | some r =>
        obtain ⟨r', rfl⟩ := Option.isSome_iff_exists.mp hsome
        exact .some (List.forall₂_cons.mp hsame).1

/-- The case of the names does not matter exactly when the message is free of it. -/
theorem case_insensitive_iff (hreads : L.ReadsSpellings m) (haccepted : m.Accepted) :
    L.CaseInsensitive limits m ↔ m.CaseFree limits := by
  rw [← sameInAll_iff haccepted]
  constructor
  · intro h m' hsame
    obtain ⟨chunks, state, hevents⟩ := hreads m (.refl m)
    obtain ⟨chunks', state', hevents'⟩ := hreads m' hsame
    obtain ⟨ok, t, hparse⟩ := exists_parseAll limits ({} : HttpParser L) chunks
    obtain ⟨ok', t', hparse'⟩ := exists_parseAll limits ({} : HttpParser L) chunks'
    have hboth := h m' hsame chunks chunks' state state' ok ok' t t' hevents hevents' hparse hparse'
    obtain ⟨hqueue, hok⟩ := parseAll_message hparse hevents
    obtain ⟨hqueue', hok'⟩ := parseAll_message hparse' hevents'
    rw [hqueue, hok, hqueue', hok'] at hboth
    exact rel_iff.mpr hboth
  · intro h m' hsame chunks chunks' state state' ok ok' t t' hevents hevents' hparse hparse'
    obtain ⟨hqueue, hok⟩ := parseAll_message hparse hevents
    obtain ⟨hqueue', hok'⟩ := parseAll_message hparse' hevents'
    rw [hqueue, hok, hqueue', hok']
    exact rel_iff.mp (h m' hsame)

/-- A message is read from its script in each of its spellings. -/
theorem readsSpellings_script {version : List UInt8} (hversion : m.version = some version)
    (htrailers : m.trailers = []) : (llhttp m.script).ReadsSpellings m := fun m' hsame =>
  ⟨[m'.text], [], (plays_script hsame hversion htrailers).executeAll⟩

/-- A message whose only field is looked up nowhere. -/
def hosted : HttpMessage where
  method := ascii "GET"
  url := ascii "/"
  version := some (ascii "1.1")
  headers := [(ascii "Host", ascii "a")]
  body := []
  trailers := []
  named := by decide
  length := by
    intro p hp hlength
    obtain rfl := List.mem_singleton.mp hp
    exact absurd hlength (by decide)

theorem case_insensitive_hosted : (llhttp hosted.script).CaseInsensitive {} hosted := by
  have hnone {key : List UInt8} (hkey : ¬ Spells key (ascii "Host")) (p) (hp : p ∈ hosted.fields) :
      ¬ Spells key p.1 := by
    obtain rfl := List.mem_singleton.mp hp
    exact hkey
  refine (case_insensitive_iff (readsSpellings_script rfl rfl) (accepted_of_single rfl rfl)).mpr
    (.inr (.inr (.inr ⟨rfl, fun m' hsame hover => ?_, ?_, ?_, ?_⟩)))
  · have hone : m'.fields.length = 1 := hsame.fields.length_eq.symm
    have hcard := hover.2.trans (List.toFinset_card_le _)
    rw [List.length_dropLast, List.length_map, hone] at hcard
    exact absurd hcard (by decide)
  · exact fun p hp hname => absurd hname (hnone (by decide) p hp)
  · exact fun p hp hname => absurd hname (hnone (by decide) p hp)
  · rintro ⟨⟨p, hp, hname, -⟩, -⟩
    exact hnone (by decide) p hp hname

theorem CaseInsensitive.verdict (h : L.CaseInsensitive limits m) (hreads : L.ReadsSpellings m) (hsame : Recased m m') :
    (m'.request limits).isSome = (m.request limits).isSome := by
  obtain ⟨chunks, state, hevents⟩ := hreads m (.refl m)
  obtain ⟨chunks', state', hevents'⟩ := hreads m' hsame
  obtain ⟨ok, t, hparse⟩ := exists_parseAll limits ({} : HttpParser L) chunks
  obtain ⟨ok', t', hparse'⟩ := exists_parseAll limits ({} : HttpParser L) chunks'
  rw [← (parseAll_message hparse hevents).2, ← (parseAll_message hparse' hevents').2]
  exact (h m' hsame chunks chunks' state state' ok ok' t t' hevents hevents' hparse hparse').1

theorem recased_post {name name' : List UInt8} (hname : name ≠ []) (hname' : name' ≠ []) (h : Spells name name') :
    Recased (post name hname) (post name' hname') :=
  ⟨rfl, rfl, rfl, .cons ⟨h, rfl⟩ .nil, rfl, .nil⟩

def postLowerCase : HttpMessage := post (ascii "content-length") (by decide)

/-- A length whose name is spelled in lower case. -/
theorem lower_case_length_refused :
    ¬ ∀ (L : Llhttp) limits m, L.ReadsSpellings m → m.Accepted → L.CaseInsensitive limits m := by
  intro h
  have hsame : Recased postLength postLowerCase := recased_post _ _ (by decide)
  have hreads : (llhttp postLength.script).ReadsSpellings postLength := readsSpellings_script rfl rfl
  have hverdict := (h _ {} postLength hreads (accepted_of_single rfl rfl)).verdict hreads hsame
  have htaken : (postLength.request {}).isSome = true := by decide
  have hrefused : (postLowerCase.request {}).isSome = false := by decide
  rw [htaken, hrefused] at hverdict
  cases hverdict

end Llhttp

end Libcold
