import Libcold.HttpFraming
import Libcold.HttpUrl
import Libcold.LlhttpUrl

namespace Libcold.Http

open HttpCommon
open Libcold.HttpRequest (findLastOf head_splitUrl)

inductive FileType
  | regular
  | notFound
  | other
  deriving DecidableEq

/-- A `file_status`, of whose permissions one is looked at. -/
structure FileStatus where
  type : FileType
  othersRead : Bool

/-- The answers of the file system about a path. `status` is none where the
overload without an error code throws, and the size of a file is that of its bytes. -/
structure FileSystem where
  status : List UInt8 → Option FileStatus
  fileSize : List UInt8 → Option (List UInt8)
  openRead : List UInt8 → Option Nat

inductive FileFailure
  | filesystemError
  | outOfRange

/-- What a call that takes a C string sees of a text. -/
def cstr (s : List UInt8) : List UInt8 := s.takeWhile (· ≠ 0)

def mimetypes : List (String × String) :=
  [(".html", "text/html"), (".htm", "text/html"), (".shtml", "text/html"), (".css", "text/css"),
    (".xml", "text/xml"), (".gif", "image/gif"), (".jpeg", "image/jpeg"), (".jpg", "image/jpeg"),
    (".js", "application/javascript"), (".atom", "application/atom+xml"), (".rss", "application/rss+xml"),
    (".mml", "text/mathml"), (".txt", "text/plain"), (".jad", "text/vnd.sun.j2me.app-descriptor"),
    (".wml", "text/vnd.wap.wml"), (".htc", "text/x-component"), (".png", "image/png"), (".tif", "image/tiff"),
    (".tiff", "image/tiff"), (".wbmp", "image/vnd.wap.wbmp"), (".ico", "image/x-icon"), (".jng", "image/x-jng"),
    (".bmp", "image/x-ms-bmp"), (".svg", "image/svg+xml"), (".svgz", "image/svg+xml"), (".webp", "image/webp"),
    (".woff", "font/woff"), (".woff2", "font/woff2"), (".jar", "application/java-archive"),
    (".war", "application/java-archive"), (".ear", "application/java-archive"), (".json", "application/json"),
    (".hqx", "application/mac-binhex40"), (".doc", "application/msword"), (".pdf", "application/pdf"),
    (".ps", "application/postscript"), (".eps", "application/postscript"), (".ai", "application/postscript"),
    (".rtf", "application/rtf"), (".m3u8", "application/vnd.apple.mpegurl"),
    (".xls", "application/vnd.ms-excel"), (".eot", "application/vnd.ms-fontobject"),
    (".ppt", "application/vnd.ms-powerpoint"), (".wmlc", "application/vnd.wap.wmlc"),
    (".kml", "application/vnd.google-earth.kml+xml"), (".kmz", "application/vnd.google-earth.kmz"),
    (".7z", "application/x-7z-compressed"), (".cco", "application/x-cocoa"),
    (".jardiff", "application/x-java-archive-diff"), (".jnlp", "application/x-java-jnlp-file"),
    (".run", "application/x-makeself"), (".pl", "application/x-perl"), (".pm", "application/x-perl"),
    (".prc", "application/x-pilot"), (".pdb", "application/x-pilot"), (".rar", "application/x-rar-compressed"),
    (".rpm", "application/x-redhat-package-manager"), (".sea", "application/x-sea"),
    (".swf", "application/x-shockwave-flash"), (".sit", "application/x-stuffit"), (".tcl", "application/x-tcl"),
    (".tk", "application/x-tcl"), (".der", "application/x-x509-ca-cert"),
    (".pem", "application/x-x509-ca-cert"), (".crt", "application/x-x509-ca-cert"),
    (".xpi", "application/x-xpinstall"), (".xhtml", "application/xhtml+xml"), (".xspf", "application/xspf+xml"),
    (".zip", "application/zip"), (".bin", "application/octet-stream"), (".exe", "application/octet-stream"),
    (".dll", "application/octet-stream"), (".deb", "application/octet-stream"),
    (".dmg", "application/octet-stream"), (".iso", "application/octet-stream"),
    (".img", "application/octet-stream"), (".msi", "application/octet-stream"),
    (".msp", "application/octet-stream"), (".msm", "application/octet-stream"),
    (".docx", "application/vnd.openxmlformats-officedocument.wordprocessingml.document"),
    (".xlsx", "application/vnd.openxmlformats-officedocument.spreadsheetml.sheet"),
    (".pptx", "application/vnd.openxmlformats-officedocument.presentationml.presentation"),
    (".mid", "audio/midi"), (".midi", "audio/midi"), (".kar", "audio/midi"), (".mp3", "audio/mpeg"),
    (".ogg", "audio/ogg"), (".m4a", "audio/x-m4a"), (".ra", "audio/x-realaudio"), (".3gpp", "video/3gpp"),
    (".3gp", "video/3gpp"), (".ts", "video/mp2t"), (".mp4", "video/mp4"), (".mpeg", "video/mpeg"),
    (".mpg", "video/mpeg"), (".mov", "video/quicktime"), (".webm", "video/webm"), (".flv", "video/x-flv"),
    (".m4v", "video/x-m4v"), (".mng", "video/x-mng"), (".asx", "video/x-ms-asf"), (".asf", "video/x-ms-asf"),
    (".wmv", "video/x-ms-wmv"), (".avi", "video/x-msvideo")]

structure StaticFileBody where
  requestPath : List UInt8
  fd : Option Nat := none
  file : List UInt8 := []
  /-- What `open` was called with. -/
  opened : Option (List UInt8) := none

namespace StaticFileBody

def servedPath (requestPath : List UInt8) : List UInt8 :=
  if requestPath = ascii "/" then ascii "/index.html" else requestPath

def fullPath (docRoot requestPath : List UInt8) : List UInt8 := cstr (docRoot ++ servedPath requestPath)

/-- The constructor, which also sets the status of the response. -/
def construct (fs : FileSystem) (requestPath docRoot : List UInt8) (response : HttpResponse) :
    Except FileFailure (StaticFileBody × HttpResponse) :=
  if hasDots requestPath = true then .ok ({ requestPath }, response.setStatus .notFound)
  else
    let body : StaticFileBody := { requestPath := servedPath requestPath }
    let path := fullPath docRoot requestPath
    match fs.status path with
    | none => .error .filesystemError
    | some status =>
        if status.type = .notFound ∨ status.type ≠ .regular ∨ status.othersRead = false then
          .ok (body, response.setStatus .notFound)
        else
          match fs.fileSize path with
          | none => .ok (body, response.setStatus .internalServerError)
          | some file =>
              match fs.openRead path with
              | none => .ok ({ body with file, opened := some path }, response.setStatus .internalServerError)
              | some fd => .ok ({ body with file, opened := some path, fd := some fd }, response)

def mimetype (suffix : List UInt8) : List UInt8 :=
  match mimetypes.find? fun p => ascii p.1 = suffix with
  | some p => ascii p.2
  | none => ascii "text/html"

/-- What `SetRelatedHeaders` enters. The suffix is a `substr` from the last dot, which
throws where there is none. -/
def related (body : StaticFileBody) : Except FileFailure HttpResponseBody :=
  match body.fd with
  | none => .ok .notOpened
  | some _ =>
      match findLastOf 46 body.requestPath with
      | none => .error .outOfRange
      | some pos => .ok (.file body.file (mimetype (body.requestPath.drop pos)))

end StaticFileBody

namespace StaticFileServlet

def handle (fs : FileSystem) (docRoot : List UInt8) (request : HttpRequest) (response : HttpResponse) :
    Except FileFailure (StaticFileBody × HttpResponse) := do
  let (body, response) ← StaticFileBody.construct fs request.url docRoot response
  let related ← body.related
  return (body, response.setBody related)

end StaticFileServlet

namespace StaticFileBody

variable {fs : FileSystem} {requestPath docRoot : List UInt8} (response : HttpResponse)

structure Opens (fs : FileSystem) (path : List UInt8) (file : List UInt8) (fd : Nat) : Prop where
  status : ∃ status, fs.status path = some status ∧ status.type = .regular ∧ status.othersRead = true
  fileSize : fs.fileSize path = some file
  openRead : fs.openRead path = some fd

theorem construct_refused (h : hasDots requestPath = true) :
    construct fs requestPath docRoot response = .ok ({ requestPath }, response.setStatus .notFound) := by
  rw [construct, if_pos h]

theorem construct_failed (hdots : hasDots requestPath = false) (h : fs.status (fullPath docRoot requestPath) = none) :
    construct fs requestPath docRoot response = .error .filesystemError := by
  simp [construct, hdots, h]

theorem construct_opens {file : List UInt8} {fd : Nat} (hdots : hasDots requestPath = false)
    (h : Opens fs (fullPath docRoot requestPath) file fd) :
    construct fs requestPath docRoot response =
      .ok (⟨servedPath requestPath, some fd, file, some (fullPath docRoot requestPath)⟩, response) := by
  obtain ⟨⟨status, hstatus, htype, hread⟩, hsize, hopen⟩ := h
  simp [construct, hdots, hstatus, htype, hread, hsize, hopen]

theorem construct_unavailable (hdots : hasDots requestPath = false)
    (hstatus : fs.status (fullPath docRoot requestPath) ≠ none)
    (h : ∀ file fd, ¬ Opens fs (fullPath docRoot requestPath) file fd) :
    ∃ body status, construct fs requestPath docRoot response = .ok (body, response.setStatus status) ∧
      status.code ≠ 200 ∧ body.fd = none ∧ ∀ path ∈ body.opened, path = fullPath docRoot requestPath := by
  obtain ⟨status, hstatus⟩ := Option.ne_none_iff_exists'.mp hstatus
  simp only [construct, hdots, Bool.false_eq_true, if_false, hstatus]
  split_ifs with hunreadable
  · exact ⟨_, _, rfl, by decide, rfl, by simp⟩
  · simp only [not_or, not_not, Bool.not_eq_false] at hunreadable
    cases hsize : fs.fileSize (fullPath docRoot requestPath) with
    | none => exact ⟨_, _, rfl, by decide, rfl, by simp⟩
    | some file =>
        cases hopen : fs.openRead (fullPath docRoot requestPath) with
        | none => exact ⟨_, _, rfl, by decide, rfl, by simp⟩
        | some fd => exact absurd ⟨⟨status, hstatus, hunreadable.2⟩, hsize, hopen⟩ (h file fd)

theorem eq_fullPath_of_opened {body : StaticFileBody} {response response' : HttpResponse} {path : List UInt8}
    (h : construct fs requestPath docRoot response = .ok (body, response')) (hopened : path ∈ body.opened) :
    hasDots requestPath = false ∧ path = fullPath docRoot requestPath := by
  cases hdots : hasDots requestPath with
  | true =>
      rw [construct_refused response hdots] at h
      cases h
      cases hopened
  | false =>
      refine ⟨rfl, ?_⟩
      by_cases hopens : ∃ file fd, Opens fs (fullPath docRoot requestPath) file fd
      · obtain ⟨file, fd, hopens⟩ := hopens
        rw [construct_opens response hdots hopens] at h
        cases h
        exact (Option.some.inj hopened).symm
      · by_cases hstatus : fs.status (fullPath docRoot requestPath) = none
        · rw [construct_failed response hdots hstatus] at h
          cases h
        · obtain ⟨body', status, heq, -, -, hpaths⟩ :=
            construct_unavailable response hdots hstatus fun file fd h => hopens ⟨file, fd, h⟩
          rw [heq] at h
          cases h
          exact hpaths path hopened

section Paths

variable {s : List UInt8}

theorem hasDots_of_append {t : List UInt8} (h : hasDots (s ++ t) = false) : hasDots s = false := by
  induction s with
  | nil => rfl
  | cons a s ih =>
      cases s with
      | nil => rfl
      | cons b s =>
          simp only [List.cons_append, hasDots, Bool.or_eq_false_iff] at h ⊢
          exact ⟨h.1, ih h.2⟩

theorem hasDots_cstr (h : hasDots s = false) : hasDots (cstr s) = false := by
  rw [← List.takeWhile_append_dropWhile (p := (· ≠ 0)) (l := s)] at h
  exact hasDots_of_append h

theorem zero_not_mem_cstr (s : List UInt8) : 0 ∉ cstr s := by
  intro hmem
  have hzero := List.all_eq_true.mp List.all_takeWhile 0 hmem
  simp at hzero

theorem cstr_append (h : 0 ∉ s) (t : List UInt8) : cstr (s ++ t) = s ++ cstr t := by
  refine List.takeWhile_append_of_pos fun c hc => ?_
  rw [decide_eq_true_eq]
  rintro rfl
  exact h hc

theorem head_cstr : (cstr s).head? = some 47 ↔ s.head? = some 47 := by
  cases s with
  | nil => rfl
  | cons c s =>
      by_cases hc : c = 0
      · subst c
        simp [cstr]
      · simp [cstr, hc]

theorem head_servedPath : (servedPath s).head? = some 47 ↔ s.head? = some 47 := by
  rw [servedPath]
  split_ifs with hslash
  · subst s
    decide
  · rfl

theorem hasDots_servedPath (h : hasDots s = false) : hasDots (servedPath s) = false := by
  rw [servedPath]
  split_ifs
  · decide
  · exact h

end Paths

/-- A path lies lexically in a directory. -/
def Inside (docRoot path : List UInt8) : Prop :=
  ∃ s, path = docRoot ++ s ∧ s.head? = some 47 ∧ hasDots s = false

theorem inside_fullPath_iff (hdots : hasDots requestPath = false) :
    Inside docRoot (fullPath docRoot requestPath) ↔ requestPath.head? = some 47 ∧ 0 ∉ docRoot := by
  constructor
  · rintro ⟨s, heq, hhead, -⟩
    have hzero : 0 ∉ docRoot := by
      intro hmem
      exact zero_not_mem_cstr _ (heq ▸ List.mem_append_left s hmem)
    rw [fullPath, cstr_append hzero, List.append_cancel_left_eq] at heq
    rw [← heq, head_cstr, head_servedPath] at hhead
    exact ⟨hhead, hzero⟩
  · rintro ⟨hhead, hzero⟩
    refine ⟨cstr (servedPath requestPath), cstr_append hzero _, ?_, hasDots_cstr (hasDots_servedPath hdots)⟩
    rw [head_cstr, head_servedPath]
    exact hhead

end StaticFileBody

section Target

variable {target : List UInt8}

/-- The target begins with a slash, or with a slash escaped as `%2F` or `%2f`. -/
def BeginsWithSlash (target : List UInt8) : Prop :=
  target.head? = some 47 ∨ [37, 50, 70] <+: target ∨ [37, 50, 102] <+: target

theorem head_urlDecode : (urlDecode target).head? = some 47 ↔ BeginsWithSlash target := by
  cases target with
  | nil => simp [urlDecode, BeginsWithSlash]
  | cons c rest =>
      by_cases hplus : c = 43
      · subst c
        simp [urlDecode_plus, BeginsWithSlash]
      · by_cases hescape : Escapes c rest
        · obtain ⟨high, low, behind, rfl, rfl, hhigh, hlow⟩ := hescape
          obtain ⟨hlt, htwo, -⟩ := hexToNum_digits hhigh
          obtain ⟨hlt', -, hfifteen⟩ := hexToNum_digits hlow
          rw [urlDecode_escape hhigh hlow, List.head?_cons, Option.some.injEq, escaped_slash hlt hlt', htwo, hfifteen]
          simp [BeginsWithSlash, and_or_left, eq_comm]
        · rw [urlDecode_literal hplus hescape]
          have hnone : ∀ low, isxdigit low = true → ¬ [37, 50, low] <+: c :: rest := by
            rintro low hlow ⟨behind, heq⟩
            obtain ⟨rfl, rfl⟩ := List.cons.inj heq
            exact hescape ⟨50, low, behind, rfl, rfl, by decide, hlow⟩
          simp only [BeginsWithSlash, hnone 70 (by decide), hnone 102 (by decide), List.head?_cons, or_false]

/-- Where the method is not CONNECT, a target begins with a slash in origin form only. -/
theorem beginsWithSlash_iff_of_admits (h : LlhttpUrl.Admits false target) :
    BeginsWithSlash target ↔ target.head? = some 47 := by
  obtain ⟨c, rest, rfl, hc⟩ := LlhttpUrl.admits_cases h
  refine or_iff_left ?_
  have hpercent : c ≠ 37 := by
    rintro rfl
    revert hc
    decide
  simp [Ne.symm hpercent]

end Target

namespace StaticFileServlet

/-- What llhttp and `HttpRequestParser` admit as a target. -/
def Admitted (limits : HttpLimits) (connect : Bool) (target : List UInt8) : Prop :=
  LlhttpUrl.Admits connect target ∧ target.length ≤ limits.maxUrlSize ∧ hasDots target = false

/-- Whatever the file system answers, what is opened for a request lies in the document
root. -/
def Confined (rawRequest : RawHttpRequest) (docRoot : List UInt8) : Prop :=
  ∀ fs response body response',
    StaticFileBody.construct fs (HttpRequest.ofRaw rawRequest).url docRoot response = .ok (body, response') →
      ∀ path ∈ body.opened, StaticFileBody.Inside docRoot path

def everywhere (file : List UInt8) : FileSystem where
  status _ := some ⟨.regular, true⟩
  fileSize _ := some file
  openRead _ := some 3

theorem opens_everywhere (file path : List UInt8) : StaticFileBody.Opens (everywhere file) path file 3 :=
  ⟨⟨⟨.regular, true⟩, rfl, rfl, rfl⟩, rfl, rfl⟩

theorem head_ofRaw (rawRequest : RawHttpRequest) :
    (HttpRequest.ofRaw rawRequest).url.head? = some 47 ↔ BeginsWithSlash rawRequest.url := by
  rw [← head_urlDecode]
  exact head_splitUrl (urlDecode rawRequest.url)

/-- What is opened lies in the document root when the decoded path is refused, or when the
target begins with a slash and the root is a C string. -/
theorem confined_iff (rawRequest : RawHttpRequest) (docRoot : List UInt8) :
    Confined rawRequest docRoot ↔
      hasDots (HttpRequest.ofRaw rawRequest).url = true ∨ (BeginsWithSlash rawRequest.url ∧ 0 ∉ docRoot) := by
  rw [← head_ofRaw]
  constructor
  · intro h
    by_cases hdots : hasDots (HttpRequest.ofRaw rawRequest).url = true
    · exact .inl hdots
    · rw [Bool.not_eq_true] at hdots
      have hopens := StaticFileBody.construct_opens {} hdots
        (opens_everywhere [] (StaticFileBody.fullPath docRoot (HttpRequest.ofRaw rawRequest).url))
      exact .inr ((StaticFileBody.inside_fullPath_iff hdots).mp (h _ _ _ _ hopens _ rfl))
  · rintro hcondition fs response body response' hconstruct path hopened
    obtain ⟨hdots, rfl⟩ := StaticFileBody.eq_fullPath_of_opened hconstruct hopened
    rw [hdots] at hcondition
    rcases hcondition with hrefused | hslash
    · cases hrefused
    · exact (StaticFileBody.inside_fullPath_iff hdots).mpr hslash

/-- A target in absolute form leads to a neighbour of the root. -/
theorem absolute_form_not_confined :
    ¬ ∀ limits connect (rawRequest : RawHttpRequest) docRoot, Admitted limits connect rawRequest.url →
      Confined rawRequest docRoot := by
  intro h
  have hadmitted : Admitted {} false (ascii "http://h/x") := ⟨⟨.path, by decide, rfl⟩, by decide, by decide⟩
  have hconfined := h {} false { url := ascii "http://h/x" } (ascii "/srv/www") hadmitted
  rcases (confined_iff _ _).mp hconfined with hdots | ⟨hslash, -⟩
  · have hplain : Plain (ascii "http://h/x") := HttpRequest.plain_of_letters (by decide) (by decide)
    have hurl : (HttpRequest.ofRaw { url := ascii "http://h/x" }).url = ascii "http://h/x" := by
      rw [HttpRequest.ofRaw, urlDecode_plain hplain, HttpRequest.splitUrl_plain (by decide) (by decide)]
    rw [hurl] at hdots
    exact absurd hdots (by decide)
  · exact absurd ((beginsWithSlash_iff_of_admits hadmitted.1).mp hslash) (by decide)

structure Delivers (fs : FileSystem) (body : StaticFileBody) (response : HttpResponse) : Prop where
  status : response.status.code = 200
  opens : ∃ path file fd, body.opened = some path ∧ fs.fileSize path = some file ∧
    fs.openRead path = some fd ∧ body.fd = some fd ∧
      response.headers.lookup (ascii "Content-Length") = some (decimal file.length)
  contentType : ∃ value, response.headers.lookup (ascii "Content-Type") = some value

/-- The response tells of a failure, without headers of a file. -/
structure Reports (before : HttpResponse) (body : StaticFileBody) (response : HttpResponse) : Prop where
  status : response.status.code ≠ 200
  closed : body.fd = none
  headers : response.headers = before.headers

/-- The handler returns and leaves one of the two. -/
def Serves (fs : FileSystem) (docRoot : List UInt8) (request : HttpRequest) (response : HttpResponse) : Prop :=
  ∃ body response', handle fs docRoot request response = .ok (body, response') ∧
    (Delivers fs body response' ∨ Reports response body response')

section Handle

variable {fs : FileSystem} {docRoot : List UInt8} {request : HttpRequest} {response : HttpResponse}

theorem handle_of_construct_error {e : FileFailure}
    (h : StaticFileBody.construct fs request.url docRoot response = .error e) :
    handle fs docRoot request response = .error e := by
  rw [handle, h]
  rfl

theorem handle_of_construct {body : StaticFileBody} {response' : HttpResponse}
    (h : StaticFileBody.construct fs request.url docRoot response = .ok (body, response')) :
    handle fs docRoot request response = body.related.map fun related => (body, response'.setBody related) := by
  rw [handle, h]
  change (do let related ← body.related; pure (body, response'.setBody related)) = _
  cases body.related <;> rfl

theorem serves_of_closed {body : StaticFileBody} {status : HttpStatus}
    (h : StaticFileBody.construct fs request.url docRoot response = .ok (body, response.setStatus status))
    (hclosed : body.fd = none) (hstatus : status.code ≠ 200) : Serves fs docRoot request response := by
  have hrelated : body.related = .ok .notOpened := by rw [StaticFileBody.related, hclosed]
  refine ⟨body, (response.setStatus status).setBody .notOpened, ?_, .inr ⟨hstatus, hclosed, rfl⟩⟩
  rw [handle_of_construct h, hrelated]
  rfl

theorem serves_of_opens {file : List UInt8} {fd : Nat} (hdots : hasDots request.url = false)
    (hopens : StaticFileBody.Opens fs (StaticFileBody.fullPath docRoot request.url) file fd) :
    Serves fs docRoot request response ↔
      46 ∈ StaticFileBody.servedPath request.url ∧ response.status.code = 200 := by
  have hconstruct := StaticFileBody.construct_opens response hdots hopens
  rw [Serves, handle_of_construct hconstruct]
  cases hpos : findLastOf 46 (StaticFileBody.servedPath request.url) with
  | none =>
      have hnodot : 46 ∉ StaticFileBody.servedPath request.url := by
        intro hmem
        obtain ⟨before, behind, heq, hbehind⟩ := HttpRequest.eq_append_cons_last hmem
        rw [heq, HttpRequest.findLastOf_append_cons hbehind] at hpos
        cases hpos
      simp [StaticFileBody.related, hpos, Except.map, hnodot]
  | some pos =>
      have hdot : 46 ∈ StaticFileBody.servedPath request.url := by
        by_contra hnodot
        rw [HttpRequest.findLastOf_none hnodot] at hpos
        cases hpos
      simp only [StaticFileBody.related, hpos, Except.map]
      constructor
      · rintro ⟨body, response', heq, hcase⟩
        cases heq
        rcases hcase with hdelivers | hreports
        · exact ⟨hdot, hdelivers.status⟩
        · cases hreports.closed
      · rintro ⟨-, hstatus⟩
        refine ⟨_, _, rfl, .inl ⟨hstatus, ⟨_, file, fd, rfl, hopens.fileSize, hopens.openRead, rfl, ?_⟩,
          StaticFileBody.mimetype ((StaticFileBody.servedPath request.url).drop pos) ++ ascii "; charset=utf-8", ?_⟩⟩
        · simp only [HttpResponse.setBody, HttpResponseBody.setRelatedHeaders, HeaderMap.lookup_set, if_true]
          exact if_neg (by decide)
        · simp only [HttpResponse.setBody, HttpResponseBody.setRelatedHeaders, HeaderMap.lookup_set, if_true]

end Handle

/-- The handler serves a request when the path is refused for its dots; or when `status`
does not fail, and a file that opens has a dot in its path and finds status 200. -/
theorem serves_iff (fs : FileSystem) (docRoot : List UInt8) (request : HttpRequest) (response : HttpResponse) :
    Serves fs docRoot request response ↔
      hasDots request.url = true ∨
        (fs.status (StaticFileBody.fullPath docRoot request.url) ≠ none ∧
          ((∃ file fd, StaticFileBody.Opens fs (StaticFileBody.fullPath docRoot request.url) file fd) →
            46 ∈ StaticFileBody.servedPath request.url ∧ response.status.code = 200)) := by
  cases hdots : hasDots request.url with
  | true =>
      simp only [true_or, iff_true]
      exact serves_of_closed (StaticFileBody.construct_refused response hdots) rfl (by decide)
  | false =>
      simp only [Bool.false_eq_true, false_or]
      by_cases hstatus : fs.status (StaticFileBody.fullPath docRoot request.url) = none
      · refine iff_of_false ?_ fun h => h.1 hstatus
        rintro ⟨body, response', hhandle, -⟩
        rw [handle_of_construct_error (StaticFileBody.construct_failed response hdots hstatus)] at hhandle
        cases hhandle
      · by_cases hopens : ∃ file fd, StaticFileBody.Opens fs (StaticFileBody.fullPath docRoot request.url) file fd
        · obtain ⟨file, fd, hfile⟩ := hopens
          rw [serves_of_opens hdots hfile]
          exact ⟨fun h => ⟨hstatus, fun _ => h⟩, fun h => h.2 ⟨file, fd, hfile⟩⟩
        · obtain ⟨body, status, hconstruct, hcode, hclosed, -⟩ :=
            StaticFileBody.construct_unavailable response hdots hstatus fun file fd h => hopens ⟨file, fd, h⟩
          exact iff_of_true (serves_of_closed hconstruct hclosed hcode) ⟨hstatus, fun h => absurd h hopens⟩

/-- A file whose path has no dot makes the handler throw. -/
theorem undotted_not_served :
    ¬ ∀ fs docRoot request (response : HttpResponse), response.status.code = 200 →
      Serves fs docRoot request response := by
  intro h
  have hserves := h (everywhere []) (ascii "/srv/www") ⟨{}, ascii "/README", [], [], [], []⟩ {} rfl
  rcases (serves_iff _ _ _ _).mp hserves with hdots | ⟨-, hcondition⟩
  · exact absurd hdots (by decide)
  · exact absurd (hcondition ⟨[], 3, opens_everywhere [] _⟩).1 (by decide)

end StaticFileServlet

end Libcold.Http
