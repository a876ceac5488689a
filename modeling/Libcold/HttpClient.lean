import Libcold.HttpHeaderBlock

namespace Libcold.Http

open HttpCommon Lines

/-- What a client reads of a response before its body. -/
structure ClientHead where
  version : List UInt8
  code : Nat
  fields : List (List UInt8 × List UInt8)

structure ClientMessage where
  head : ClientHead
  body : List UInt8

/-- Where a client takes the body to end. -/
inductive Extent
  | bytes (n : Nat)
  | untilClose

namespace HttpClient

def isBlank (b : UInt8) : Bool := b == 32 || b == 9

def trim (text : List UInt8) : List UInt8 := ((text.dropWhile isBlank).reverse.dropWhile isBlank).reverse

def statusOf (line : List UInt8) : Option (List UInt8 × Nat) :=
  (readDecimal (((line.dropWhile (· ≠ 32)).drop 1).takeWhile (· ≠ 32))).map fun code => (line.takeWhile (· ≠ 32), code)

def fieldOf (line : List UInt8) : Option (List UInt8 × List UInt8) :=
  if 58 ∈ line then some (line.takeWhile (· ≠ 58), trim ((line.dropWhile (· ≠ 58)).drop 1)) else none

def readFields : List (List UInt8) → Option (List (List UInt8 × List UInt8))
  | [] => some []
  | line :: lines => do
      let p ← fieldOf line
      let fields ← readFields lines
      some (p :: fields)

def readHead : List (List UInt8) → Option ClientHead
  | [] => none
  | first :: lines => do
      let (version, code) ← statusOf first
      let fields ← readFields lines
      some ⟨version, code, fields⟩

/-- The responses that have no body, whatever their fields say. -/
def bodiless (method : List UInt8) (code : Nat) : Bool :=
  method == ascii "HEAD" || code == 204 || code == 304 || method == ascii "CONNECT" && 200 ≤ code && code < 300

def lengths (fields : List (List UInt8 × List UInt8)) : List (Option Nat) :=
  (fields.filter fun p => Spells (ascii "Content-Length") p.1).map fun p => readDecimal p.2

/-- Where the fields for the length are several, they have to agree. -/
def extentOf : List (Option Nat) → Option Extent
  | [] => some .untilClose
  | length :: more => if ∀ other ∈ more, other = length then length.map .bytes else none

/-- By the general rules for messages, for a client that takes no transfer coding; a
code below 200 is none of a response that ends the exchange. -/
def extent (method : List UInt8) (head : ClientHead) : Option Extent :=
  if head.code < 200 then none
  else if bodiless method head.code then some (.bytes 0)
  else if head.fields.any fun p => Spells (ascii "Transfer-Encoding") p.1 then none
  else extentOf (lengths head.fields)

def readBody (closed : Bool) (rest : List UInt8) : Extent → Option (List UInt8 × List UInt8)
  | .bytes n => if n ≤ rest.length then some (rest.take n, rest.drop n) else none
  | .untilClose => if closed then some (rest, []) else none

/-- A response to the method, off what has come on a connection that may be closed by now. -/
def readMessage (closed : Bool) (method stream : List UInt8) : Option (ClientMessage × List UInt8) := do
  let (lines, rest) ← takeBlock 13 10 stream
  let head ← readHead lines
  let extent ← extent method head
  let (body, behind) ← readBody closed rest extent
  some (⟨head, body⟩, behind)

/-- The responses to the methods of the requests, in their order. -/
def readAll (closed : Bool) : List (List UInt8) → List UInt8 → Option (List ClientMessage × List UInt8)
  | [], stream => some ([], stream)
  | method :: methods, stream => do
      let (message, rest) ← readMessage closed method stream
      let (messages, behind) ← readAll closed methods rest
      some (message :: messages, behind)

theorem all_ne {sep : UInt8} {text : List UInt8} (h : sep ∉ text) : ∀ b ∈ text, decide (b ≠ sep) = true := by
  intro b hb
  exact decide_eq_true fun hsep => h (hsep ▸ hb)

theorem takeWhile_ne_append {sep : UInt8} {text : List UInt8} (h : sep ∉ text) (rest : List UInt8) :
    (text ++ sep :: rest).takeWhile (· ≠ sep) = text := by
  rw [List.takeWhile_append_of_pos (all_ne h)]
  simp

theorem dropWhile_ne_append {sep : UInt8} {text : List UInt8} (h : sep ∉ text) (rest : List UInt8) :
    (text ++ sep :: rest).dropWhile (· ≠ sep) = sep :: rest := by
  rw [List.dropWhile_append_of_pos (all_ne h)]
  simp

theorem not_mem_takeWhile (sep : UInt8) (line : List UInt8) : sep ∉ line.takeWhile (· ≠ sep) := by
  intro hmem
  simpa using List.mem_takeWhile_imp hmem

theorem statusOf_statusLine_iff (r : HttpResponse) :
    statusOf r.statusLine = some (r.version, r.status.code) ↔ 32 ∉ r.version := by
  have hdigits : 32 ∉ decimal r.status.code := fun h => absurd (HttpResponse.decimal_digits _ _ h) (by decide)
  have hline : r.statusLine = r.version ++ 32 :: (decimal r.status.code ++ 32 :: ascii r.status.message) := by
    have hspace : ascii " " = [32] := by decide
    simp [HttpResponse.statusLine, hspace]
  constructor
  · intro h
    obtain ⟨code, -, hpair⟩ := Option.map_eq_some_iff.mp h
    rw [← (Prod.mk.inj hpair).1]
    exact not_mem_takeWhile 32 _
  · intro h
    rw [statusOf, hline, takeWhile_ne_append h, dropWhile_ne_append h, List.drop_one, List.tail_cons,
      takeWhile_ne_append hdigits, readDecimal_decimal]
    rfl

/-- A field is read back when its name has no colon and its value no blanks around it. -/
theorem fieldOf_iff (name value : List UInt8) :
    fieldOf (name ++ ascii ": " ++ value) = some (name, value) ↔ 58 ∉ name ∧ trim value = value := by
  have hline : name ++ ascii ": " ++ value = name ++ 58 :: 32 :: value := by
    have hcolon : ascii ": " = [58, 32] := by decide
    simp [hcolon]
  have hmem : 58 ∈ name ++ 58 :: 32 :: value := by simp
  have htrim : trim (32 :: value) = trim value := by simp [trim, isBlank]
  rw [hline, fieldOf, if_pos hmem, Option.some.injEq, Prod.mk.injEq]
  constructor
  · rintro ⟨hname, hvalue⟩
    have hnone : 58 ∉ name := hname ▸ not_mem_takeWhile 58 _
    rw [dropWhile_ne_append hnone, List.drop_one, List.tail_cons, htrim] at hvalue
    exact ⟨hnone, hvalue⟩
  · rintro ⟨hnone, hvalue⟩
    rw [takeWhile_ne_append hnone, dropWhile_ne_append hnone, List.drop_one, List.tail_cons, htrim]
    exact ⟨rfl, hvalue⟩

theorem readFields_iff (lines : List (List UInt8)) (fields : List (List UInt8 × List UInt8)) :
    readFields lines = some fields ↔ lines.map fieldOf = fields.map some := by
  induction lines generalizing fields with
  | nil => cases fields <;> simp [readFields]
  | cons line lines ih =>
      simp only [readFields, Option.bind_eq_bind, Option.bind_eq_some_iff, Option.some.injEq, List.map_cons, ih]
      constructor
      · rintro ⟨p, hp, later, hlater, rfl⟩
        rw [hp, hlater]
        rfl
      · intro h
        cases fields with
        | nil => cases h
        | cons p later =>
            obtain ⟨hp, hlater⟩ := List.cons.inj h
            exact ⟨p, hp, later, hlater, rfl⟩

theorem trim_within (text : List UInt8) : trim text <:+: text := by
  have hend : trim text <+: text.dropWhile isBlank := by
    rw [← List.reverse_suffix, trim, List.reverse_reverse]
    exact List.dropWhile_suffix _
  exact hend.isInfix.trans (List.dropWhile_suffix _).isInfix

/-- What is read from a line ends no line. -/
theorem fieldOf_clean {line : List UInt8} {p : List UInt8 × List UInt8} (h : fieldOf line = some p)
    (hline : ¬ HasCrlf line) : ¬ HasCrlf p.1 ∧ ¬ HasCrlf p.2 := by
  rw [fieldOf] at h
  split_ifs at h
  cases h
  constructor
  · exact fun hname => hline (hname.trans (List.takeWhile_prefix _).isInfix)
  · intro hvalue
    have hbehind := (List.drop_suffix 1 _).trans (List.dropWhile_suffix (l := line) fun b => decide (b ≠ 58))
    exact hline (hvalue.trans ((trim_within _).trans hbehind.isInfix))

theorem readHead_clean {lines : List (List UInt8)} {head : ClientHead} (h : readHead lines = some head)
    (hlines : ∀ line ∈ lines, ¬ HasCrlf line) :
    ¬ HasCrlf head.version ∧ ∀ p ∈ head.fields, ¬ HasCrlf p.1 ∧ ¬ HasCrlf p.2 := by
  cases lines with
  | nil => cases h
  | cons first lines =>
      simp only [readHead, Option.bind_eq_bind, Option.bind_eq_some_iff, Option.some.injEq, Prod.exists,
        readFields_iff] at h
      obtain ⟨version, code, hstatus, fields, hfields, rfl⟩ := h
      rw [List.forall_mem_cons] at hlines
      constructor
      · obtain ⟨_, -, hpair⟩ := Option.map_eq_some_iff.mp hstatus
        intro hversion
        rw [← (Prod.mk.inj hpair).1] at hversion
        exact hlines.1 (hversion.trans (List.takeWhile_prefix _).isInfix)
      · intro p hp
        have hread : some p ∈ lines.map fieldOf := by
          rw [hfields]
          exact List.mem_map_of_mem hp
        obtain ⟨line, hline, hfield⟩ := List.mem_map.mp hread
        exact fieldOf_clean hfield (hlines.2 line hline)

theorem extentOf_untilClose {ls : List (Option Nat)} : extentOf ls = some .untilClose ↔ ls = [] := by
  cases ls with
  | nil => simp [extentOf]
  | cons length more =>
      simp only [extentOf, reduceCtorEq, iff_false]
      split_ifs
      · cases length <;> simp
      · simp

theorem extentOf_bytes {ls : List (Option Nat)} {n : Nat} :
    extentOf ls = some (.bytes n) ↔ ls ≠ [] ∧ ∀ length ∈ ls, length = some n := by
  cases ls with
  | nil => simp [extentOf]
  | cons length more =>
      simp only [extentOf, ne_eq, reduceCtorEq, not_false_eq_true, true_and, List.forall_mem_cons]
      constructor
      · intro h
        split_ifs at h with hmore
        obtain ⟨m, rfl, hm⟩ := Option.map_eq_some_iff.mp h
        cases hm
        exact ⟨rfl, hmore⟩
      · rintro ⟨rfl, hmore⟩
        rw [if_pos hmore]
        rfl

end HttpClient

namespace HttpResponse

open HttpClient

def isKeepAlive (r : HttpResponse) : Bool :=
  match r.connectionStatus with
  | .keepAlive => true
  | _ => false

/-- What a client is meant to read. -/
def sentFields (r : HttpResponse) : List (List UInt8 × List UInt8) :=
  r.sentHeaders ++ r.cookies.map fun cookie => (ascii "Set-Cookie", cookie.dump)

def sentHead (r : HttpResponse) : ClientHead := ⟨r.version, r.status.code, r.sentFields⟩

def sentMessage (r : HttpResponse) : ClientMessage := ⟨r.sentHead, r.sentBody⟩

/-- All that goes over the connection. -/
def wire (r : HttpResponse) : List UInt8 := r.makeHeaders ++ r.sentBody

/-- The block says what was set, and nothing else. -/
structure Legible (r : HttpResponse) : Prop where
  lines : ∀ text ∈ r.texts, ¬ HasCrlf text
  version : 32 ∉ r.version
  fields : ∀ p ∈ r.sentFields, 58 ∉ p.1 ∧ trim p.2 = p.2

/-- A client finds the end of the body where it is, with the field for the length or, on
a connection that is closed then, without it. -/
def Delimited (r : HttpResponse) (closed : Prop) (method : List UInt8) : Prop :=
  200 ≤ r.status.code ∧
    if bodiless method r.status.code then r.sentBody = []
    else (∀ p ∈ r.sentHeaders, ¬ Spells (ascii "Transfer-Encoding") p.1) ∧
      (r.Framed ∨ closed ∧ ∀ p ∈ r.sentHeaders, ¬ Spells (ascii "Content-Length") p.1)

theorem fieldOf_sentFields (r : HttpResponse) :
    (r.sentHeaders.map headerLine ++ r.cookies.map cookieLine).map fieldOf = r.sentFields.map some ↔
      ∀ p ∈ r.sentFields, 58 ∉ p.1 ∧ trim p.2 = p.2 := by
  have hlines : r.sentHeaders.map headerLine ++ r.cookies.map cookieLine =
      r.sentFields.map fun p => p.1 ++ ascii ": " ++ p.2 := by
    have hcookie : cookieLine = fun cookie => ascii "Set-Cookie" ++ ascii ": " ++ cookie.dump := by
      funext cookie
      have hname : ascii "Set-Cookie: " = ascii "Set-Cookie" ++ ascii ": " := by decide
      rw [cookieLine, hname]
    rw [sentFields, List.map_append, List.map_map, hcookie]
    rfl
  rw [hlines, List.map_map, List.map_inj_left]
  exact forall₂_congr fun p _ => fieldOf_iff p.1 p.2

theorem readHead_blockLines_iff (r : HttpResponse) : readHead r.blockLines = some r.sentHead ↔
    32 ∉ r.version ∧ ∀ p ∈ r.sentFields, 58 ∉ p.1 ∧ trim p.2 = p.2 := by
  simp only [readHead, blockLines, Option.bind_eq_bind, Option.bind_eq_some_iff, Option.some.injEq, Prod.exists,
    readFields_iff]
  rw [← statusOf_statusLine_iff, ← fieldOf_sentFields]
  constructor
  · rintro ⟨version, code, hstatus, fields, hfields, hhead⟩
    cases hhead
    exact ⟨hstatus, hfields⟩
  · rintro ⟨hstatus, hfields⟩
    exact ⟨_, _, hstatus, _, hfields, rfl⟩

/-- The lengths that a client reads, and what the response says of its own. -/
theorem framed_iff_lengths (r : HttpResponse) :
    r.Framed ↔ lengths r.sentFields ≠ [] ∧ ∀ length ∈ lengths r.sentFields, length = some r.sentBody.length := by
  have hfields : lengths r.sentFields = lengths r.sentHeaders := by
    have hcookie : ¬ Spells (ascii "Content-Length") (ascii "Set-Cookie") := by decide
    simp [lengths, sentFields, hcookie]
  rw [hfields, Framed]
  simp only [lengths, ne_eq, List.map_eq_nil_iff, List.filter_eq_nil_iff, List.forall_mem_map, List.mem_filter,
    decide_eq_true_eq, and_imp]
  push Not
  rfl

theorem no_coding_iff (r : HttpResponse) : (r.sentFields.any fun p => Spells (ascii "Transfer-Encoding") p.1) = false ↔
    ∀ p ∈ r.sentHeaders, ¬ Spells (ascii "Transfer-Encoding") p.1 := by
  have hcookie : ¬ Spells (ascii "Transfer-Encoding") (ascii "Set-Cookie") := by decide
  simp [sentFields, hcookie]

theorem lengths_eq_nil_iff (r : HttpResponse) :
    lengths r.sentFields = [] ↔ ∀ p ∈ r.sentHeaders, ¬ Spells (ascii "Content-Length") p.1 := by
  have hcookie : ¬ Spells (ascii "Content-Length") (ascii "Set-Cookie") := by decide
  simp [lengths, sentFields, hcookie]

/-- A client takes the body to end where it ends. -/
theorem extent_iff (r : HttpResponse) (method : List UInt8) (closed : Prop) :
    (extent method r.sentHead = some (.bytes r.sentBody.length) ∨
        closed ∧ extent method r.sentHead = some .untilClose) ↔ r.Delimited closed method := by
  have hcode : r.sentHead.code = r.status.code := rfl
  have hfields : r.sentHead.fields = r.sentFields := rfl
  rw [Delimited, extent, hcode, hfields]
  by_cases hfinal : r.status.code < 200
  · simp [hfinal]
  · rw [if_neg hfinal, and_iff_right (Nat.le_of_not_lt hfinal)]
    by_cases hnone : bodiless method r.status.code = true
    · rw [if_pos hnone, if_pos hnone]
      constructor
      · rintro (hbytes | ⟨-, huntil⟩)
        · exact List.length_eq_zero_iff.mp (Extent.bytes.inj (Option.some.inj hbytes)).symm
        · cases huntil
      · intro hnil
        rw [hnil]
        exact .inl rfl
    · rw [if_neg hnone, if_neg hnone]
      by_cases hcoding : (r.sentFields.any fun p => Spells (ascii "Transfer-Encoding") p.1) = true
      · have hnot := (no_coding_iff r).not.mp (by simp [hcoding])
        rw [if_pos hcoding]
        exact iff_of_false (by simp) fun h => hnot h.1
      · rw [if_neg hcoding, and_iff_right ((no_coding_iff r).mp (by simpa using hcoding)), framed_iff_lengths,
          ← lengths_eq_nil_iff, ← extentOf_bytes, ← extentOf_untilClose]

theorem texts_clean_of_head (r : HttpResponse) (hversion : ¬ HasCrlf r.version)
    (hfields : ∀ p ∈ r.sentFields, ¬ HasCrlf p.1 ∧ ¬ HasCrlf p.2) : ∀ text ∈ r.texts, ¬ HasCrlf text := by
  rw [← blockLines_clean_iff, blockLines, List.forall_mem_cons, List.forall_mem_append, List.forall_mem_map,
    List.forall_mem_map, hasCrlf_statusLine]
  refine ⟨hversion, fun p hp => ?_, fun cookie hcookie => ?_⟩
  · rw [hasCrlf_headerLine, not_or]
    exact hfields p (List.mem_append_left _ hp)
  · rw [cookieLine, hasCrlf_before (by decide)]
    exact (hfields _ (List.mem_append_right _ (List.mem_map_of_mem hcookie))).2

theorem takeBlock_makeHeaders {r : HttpResponse} (h : ∀ text ∈ r.texts, ¬ HasCrlf text) (rest : List UInt8) :
    takeBlock 13 10 (r.makeHeaders ++ rest) = some (r.blockLines, rest) := by
  rw [makeHeaders_eq, takeBlock_join (by decide)]
  intro line hline
  exact ⟨(blockLines_clean_iff r).mpr h line hline, fun hnil => blockLines_ne_nil r (hnil ▸ hline)⟩

theorem takeBlock_wire {r : HttpResponse} (h : ∀ text ∈ r.texts, ¬ HasCrlf text) (rest : List UInt8) :
    takeBlock 13 10 (r.wire ++ rest) = some (r.blockLines, r.sentBody ++ rest) := by
  rw [wire, List.append_assoc, takeBlock_makeHeaders h]

theorem wire_ne_nil (r : HttpResponse) : r.wire ≠ [] := by
  have hcrlf : Libcold.HttpResponse.crlf ≠ [] := by decide
  simp [wire, makeHeaders, hcrlf]

/-- A client reads the response that was sent, and leaves what comes behind it. -/
theorem readMessage_wire_iff (r : HttpResponse) (closed : Bool) (method rest rest' : List UInt8) :
    readMessage closed method (r.wire ++ rest) = some (r.sentMessage, rest') ↔
      r.Legible ∧ (extent method r.sentHead = some (.bytes r.sentBody.length) ∧ rest' = rest ∨
        closed = true ∧ extent method r.sentHead = some .untilClose ∧ rest = [] ∧ rest' = []) := by
  simp only [readMessage, Option.bind_eq_bind, Option.bind_eq_some_iff, Option.some.injEq, Prod.exists]
  constructor
  · rintro ⟨lines, later, hblock, head, hhead, found, hfound, body, behind, hbody, hmessage⟩
    obtain ⟨hread, rfl⟩ := Prod.mk.inj hmessage
    obtain ⟨rfl, rfl⟩ := ClientMessage.mk.inj hread
    have hclean := readHead_clean hhead (takeBlock_clean hblock)
    have htexts := texts_clean_of_head r hclean.1 hclean.2
    rw [takeBlock_wire htexts] at hblock
    obtain ⟨rfl, rfl⟩ := Prod.mk.inj (Option.some.inj hblock)
    obtain ⟨hversion, hfields⟩ := (readHead_blockLines_iff r).mp hhead
    refine ⟨⟨htexts, hversion, hfields⟩, ?_⟩
    cases found with
    | bytes n =>
        left
        rw [readBody] at hbody
        split_ifs at hbody with hlength
        obtain ⟨htake, hdrop⟩ := Prod.mk.inj (Option.some.inj hbody)
        have hn : r.sentBody.length = n := by
          rw [← htake, List.length_take, Nat.min_eq_left hlength]
        subst hn
        exact ⟨hfound, by simpa using hdrop.symm⟩
    | untilClose =>
        right
        rw [readBody] at hbody
        split_ifs at hbody with hclosed
        obtain ⟨hall, rfl⟩ := Prod.mk.inj (Option.some.inj hbody)
        exact ⟨hclosed, hfound, by simpa using hall, rfl⟩
  · rintro ⟨hlegible, hextent⟩
    refine ⟨_, _, takeBlock_wire hlegible.lines rest, _,
      (readHead_blockLines_iff r).mpr ⟨hlegible.version, hlegible.fields⟩, ?_⟩
    rcases hextent with ⟨hbytes, rfl⟩ | ⟨rfl, huntil, rfl, rfl⟩
    · exact ⟨_, hbytes, r.sentBody, rest', by simp [readBody], rfl⟩
    · exact ⟨_, huntil, r.sentBody, [], by simp [readBody], rfl⟩

end HttpResponse

/-- A method and the response to a request with it. -/
abbrev Reply := List UInt8 × HttpResponse

namespace Reply

def wire (es : List Reply) : List UInt8 := es.flatMap fun e => e.2.wire

def Closes (e : Reply) : Prop := e.2.isKeepAlive = false

instance (e : Reply) : Decidable e.Closes := inferInstanceAs (Decidable (_ = _))

/-- What a client that has sent the requests reads, once the last response has come. -/
def readBack (es : List Reply) : Option (List ClientMessage × List UInt8) :=
  HttpClient.readAll (es.any fun e => e.Closes) (es.map Prod.fst) (wire es)

theorem wire_eq_nil_iff (es : List Reply) : wire es = [] ↔ es = [] := by
  cases es with
  | nil => simp [wire]
  | cons e es => simp [wire, HttpResponse.wire_ne_nil]

theorem readBack_cons_iff {e : Reply} {es : List Reply} (h : ∀ later ∈ es, ¬ e.Closes) :
    readBack (e :: es) = some ((e :: es).map fun e => e.2.sentMessage, []) ↔
      (e.2.Legible ∧ e.2.Delimited e.Closes e.1) ∧ readBack es = some (es.map fun e => e.2.sentMessage, []) := by
  have hlast : ((e :: es).any fun e => e.Closes) = true ∧ wire es = [] ↔ e.Closes := by
    rw [wire_eq_nil_iff]
    constructor
    · rintro ⟨hany, rfl⟩
      simpa using hany
    · intro hcloses
      refine ⟨by simp [hcloses], List.eq_nil_iff_forall_not_mem.mpr fun later hlater => h later hlater hcloses⟩
  have hrest : readBack es = HttpClient.readAll ((e :: es).any fun e => e.Closes) (es.map Prod.fst) (wire es) := by
    cases es with
    | nil => rfl
    | cons later es =>
        have hopen := h later List.mem_cons_self
        simp [readBack, hopen]
  have hread (rest : List UInt8) : HttpClient.readMessage ((e :: es).any fun e => e.Closes) e.1 (wire (e :: es)) =
      some (e.2.sentMessage, rest) ↔ (e.2.Legible ∧ e.2.Delimited e.Closes e.1) ∧ rest = wire es := by
    have hwire : wire (e :: es) = e.2.wire ++ wire es := rfl
    rw [hwire, HttpResponse.readMessage_wire_iff, and_assoc, ← HttpResponse.extent_iff, ← hlast]
    refine and_congr_right fun _ => ?_
    constructor
    · rintro (⟨hbytes, hrest⟩ | ⟨hclosed, huntil, hnil, rfl⟩)
      · exact ⟨.inl hbytes, hrest⟩
      · exact ⟨.inr ⟨⟨hclosed, hnil⟩, huntil⟩, hnil.symm⟩
    · rintro ⟨hbytes | ⟨⟨hclosed, hnil⟩, huntil⟩, rfl⟩
      · exact .inl ⟨hbytes, rfl⟩
      · exact .inr ⟨hclosed, huntil, hnil, hnil⟩
  rw [hrest]
  simp only [readBack, List.map_cons, HttpClient.readAll, Option.bind_eq_bind, Option.bind_eq_some_iff, Prod.exists,
    Option.some.injEq, Prod.mk.injEq, List.cons.injEq]
  constructor
  · rintro ⟨message, rest, hmessage, messages, behind, hmessages, ⟨rfl, rfl⟩, rfl⟩
    obtain ⟨hgood, rfl⟩ := (hread rest).mp hmessage
    exact ⟨hgood, hmessages⟩
  · rintro ⟨hgood, hmessages⟩
    exact ⟨_, _, (hread _).mpr ⟨hgood, rfl⟩, _, _, hmessages, ⟨rfl, rfl⟩, rfl⟩

theorem readBack_iff {es : List Reply} (h : es.Pairwise fun e _ => ¬ e.Closes) :
    readBack es = some (es.map fun e => e.2.sentMessage, []) ↔
      ∀ e ∈ es, e.2.Legible ∧ e.2.Delimited e.Closes e.1 := by
  induction h with
  | nil => simp [readBack, HttpClient.readAll, wire]
  | cons hopen _ ih => rw [readBack_cons_iff hopen, ih, List.forall_mem_cons]

end Reply

namespace HttpServer

variable (server : HttpServer)

/-- A request that is malformed has no method. -/
def method : Option RawHttpRequest → List UInt8
  | some rawRequest => rawRequest.method
  | none => []

/-- What `DoHttp` answers, up to the first response that closes the connection. -/
def replies : List (Option RawHttpRequest) → List Reply
  | [] => []
  | received :: later =>
      (method received, server.respond received) ::
        if (server.respond received).isKeepAlive then replies later else []

theorem replies_chained (received : List (Option RawHttpRequest)) :
    (server.replies received).Pairwise fun e _ => ¬ e.Closes := by
  induction received with
  | nil => exact .nil
  | cons first later ih =>
      rw [replies]
      split_ifs with hkeep
      · exact .cons (fun _ _ hcloses => by simp [Reply.Closes, hkeep] at hcloses) ih
      · exact .cons (by simp) .nil

/-- A client reads exactly the responses that were meant, in step with its requests, where
each of them is legible and its body ends where the general rules have it. -/
theorem responses_read_back_iff (received : List (Option RawHttpRequest)) :
    Reply.readBack (server.replies received) =
        some ((server.replies received).map fun e => e.2.sentMessage, []) ↔
      ∀ e ∈ server.replies received, e.2.Legible ∧ e.2.Delimited e.Closes e.1 :=
  Reply.readBack_iff (server.replies_chained received)

theorem mem_replies {received : List (Option RawHttpRequest)} {e : Reply} (h : e ∈ server.replies received) :
    ∃ first ∈ received, e = (method first, server.respond first) := by
  induction received with
  | nil => cases h
  | cons first later ih =>
      rw [replies] at h
      rcases List.mem_cons.mp h with rfl | h
      · exact ⟨first, List.mem_cons_self, rfl⟩
      · split_ifs at h
        · obtain ⟨other, hother, he⟩ := ih h
          exact ⟨other, List.mem_cons_of_mem _ hother, he⟩
        · cases h

/-- A server with the pages of the constructor, whose servlets write no length in another
spelling and no transfer coding. -/
structure Plain : Prop where
  errorPageHandler : server.errorPageHandler = fun _ => none
  defaultErrorPageHandler : server.defaultErrorPageHandler = defaultErrorPage
  length : ∀ request, ∀ op ∈ server.servlets request, ∀ key, Spells (ascii "Content-Length") key →
    key ≠ ascii "Content-Length" → ResponseOp.written key op = none
  coding : ∀ request, ∀ op ∈ server.servlets request, ∀ key, Spells (ascii "Transfer-Encoding") key →
    ResponseOp.written key op = none

variable {server}

theorem Plain.errorPage (h : server.Plain) {r : HttpResponse} (hcode : r.status.code ≠ 200) :
    server.errorPage r = defaultErrorPage r := by
  have hok : HttpStatus.ok.code = 200 := rfl
  rw [HttpServer.errorPage, if_neg (hok ▸ hcode), h.errorPageHandler, h.defaultErrorPageHandler]

theorem errorPage_ok {r : HttpResponse} (hcode : r.status.code = 200) : server.errorPage r = [] := by
  rw [HttpServer.errorPage]
  exact if_pos hcode

theorem status_respond (h : server.Plain) (received : Option RawHttpRequest) :
    (server.respond received).status = ((opened received).performAll (server.handled received)).status := by
  by_cases hcode : ((opened received).performAll (server.handled received)).status.code = 200
  · rw [respond, errorPage_ok hcode]
    rfl
  · rw [respond, h.errorPage hcode]
    rfl

/-- A page that is sent is not empty, and says its length. -/
theorem Plain.page (h : server.Plain) {received : Option RawHttpRequest}
    (hcode : (server.respond received).status.code ≠ 200) :
    (server.respond received).sentBody ≠ [] ∧ (server.respond received).Framed := by
  rw [status_respond h] at hcode
  constructor
  · have hopening : ascii "<html><head><title>" ≠ [] := by decide
    rw [respond, h.errorPage hcode]
    simp [HttpResponse.sentBody, HttpResponse.performAll, HttpResponse.perform, HttpResponse.setBody,
      HttpResponse.setHeader, defaultErrorPage, HttpResponseBody.content, hopening]
  · refine framed_defaultErrorPage server (h.errorPage hcode) rfl ?_
    intro key hkey hother op hop
    cases received with
    | none => cases hop
    | some rawRequest => exact h.length _ op hop key hkey hother

theorem headers_respond (received : Option RawHttpRequest) (key : List UInt8) :
    (server.respond received).headers.lookup key = ResponseOp.lastWritten (server.operations received) key := by
  rw [respond_eq, HttpResponse.lookup_performAll]
  cases received with
  | none => exact Option.or_none
  | some rawRequest => exact Option.or_none

theorem Plain.no_coding (h : server.Plain) (received : Option RawHttpRequest) :
    ∀ p ∈ (server.respond received).sentHeaders, ¬ Spells (ascii "Transfer-Encoding") p.1 := by
  intro p hp hspells
  have hother : ascii "Connection" ≠ p.1 := by
    intro heq
    rw [← heq] at hspells
    exact absurd hspells (by decide)
  have hnone : ResponseOp.lastWritten (server.operations received) p.1 = none := by
    apply ResponseOp.lastWritten_none
    intro op hop
    rcases List.mem_append.mp hop with hop | hop
    · cases received with
      | none => cases hop
      | some rawRequest => exact h.coding _ op hop p.1 hspells
    · by_cases hcode : ((opened received).performAll (server.handled received)).status.code = 200
      · rw [errorPage_ok hcode] at hop
        cases hop
      · rw [h.errorPage hcode] at hop
        have hname (name : List UInt8) (hname : ¬ Spells (ascii "Transfer-Encoding") name) : name ≠ p.1 := by
          rintro rfl
          exact hname hspells
        have hpage := And.intro (hname (ascii "Content-Length") (by decide))
          (And.intro (hname (ascii "Content-Type") (by decide)) (hname (ascii "Content-type") (by decide)))
        simp only [defaultErrorPage, List.mem_cons, List.not_mem_nil, or_false] at hop
        rcases hop with rfl | rfl
        · simp only [ResponseOp.written, HttpResponseBody.setRelatedHeaders, HeaderMap.lookup_set, hpage, if_false]
          rfl
        · simp [ResponseOp.written, hpage]
  rw [HttpResponse.sentHeaders, ((server.respond received).sorted.set _ _).mem_iff, HeaderMap.lookup_set, if_neg hother,
    headers_respond, hnone] at hp
  cases hp

/-- A client stays in step with a plain server where each response is legible and final,
each page answers a request whose answer may have a body, and each other response has no
body or gives its length. -/
theorem plain_read_back_iff (h : server.Plain) (received : List (Option RawHttpRequest)) :
    Reply.readBack (server.replies received) =
        some ((server.replies received).map fun e => e.2.sentMessage, []) ↔
      ∀ e ∈ server.replies received, e.2.Legible ∧ 200 ≤ e.2.status.code ∧
        if HttpClient.bodiless e.1 e.2.status.code then e.2.status.code = 200 ∧ e.2.sentBody = []
        else e.2.status.code = 200 →
          e.2.Framed ∨ e.Closes ∧ ∀ p ∈ e.2.sentHeaders, ¬ Spells (ascii "Content-Length") p.1 := by
  rw [Reply.readBack_iff (server.replies_chained received)]
  refine forall₂_congr fun e he => and_congr_right fun _ => ?_
  obtain ⟨first, -, rfl⟩ := mem_replies server he
  rw [HttpResponse.Delimited]
  refine and_congr_right fun _ => ?_
  by_cases hcode : (server.respond first).status.code = 200
  · simp only [hcode, true_and, forall_const, and_iff_right (h.no_coding first)]
  · have hpage := h.page hcode
    split_ifs with hbodiless
    · exact iff_of_false hpage.1 fun hok => hcode hok.1
    · exact iff_of_true ⟨h.no_coding first, .inl hpage.2⟩ fun hok => absurd hok hcode

/-- A servlet that answers with 204 gets a page that the client takes for its next response. -/
theorem plain_read_back_no_content : ∃ (server : HttpServer) (received : List (Option RawHttpRequest)),
    server.Plain ∧ Reply.readBack (server.replies received) ≠
      some ((server.replies received).map fun e => e.2.sentMessage, []) := by
  let server : HttpServer :=
    { servlets := fun _ => [.setStatus ⟨204, "No Content", by simp [httpStatusMessageMap]⟩] }
  let rawRequest : RawHttpRequest := { method := ascii "GET", url := ascii "/", version := ascii "HTTP/1.1" }
  have hplain : server.Plain :=
    ⟨rfl, rfl, by simp [server, ResponseOp.written], by simp [server, ResponseOp.written]⟩
  refine ⟨server, [some rawRequest], hplain, fun hread => ?_⟩
  have hanswered := ((plain_read_back_iff hplain _).mp hread _ List.mem_cons_self).2.2
  have hcode : (server.respond (some rawRequest)).status.code = 204 := by
    rw [status_respond hplain]
    rfl
  have hbodiless : HttpClient.bodiless (method (some rawRequest)) 204 = true := by simp [HttpClient.bodiless]
  rw [hcode, if_pos hbodiless] at hanswered
  exact absurd hanswered.1 (by decide)

end HttpServer

end Libcold.Http
