import PierGateway.CleanPaths
import PierGateway.ContentSecurity
import PierGateway.RuneLaws
import PierGateway.ServeMux

/-!
# The static files of the web interface

The files of the frontend are embedded in the program. `StaticHandler` looks the path
of a request up among them, replaces the path by the root when there is nothing of that
name, and leaves the rest to the file server of the standard library. That one can do
more than the interface needs: it lists directories, fails and redirects. What the
handler makes of it is one page for every path that is not a file, and no listing.
-/
namespace PierGateway.WebUI
open GoStrings GoUnicode HttpMessages NetUrl DotSegments CleanPaths ServeMux

/-! ### The embedded tree -/

/-- `utf8.ValidString`. -/
def validString (s : Str) : Bool :=
  (runes s).all fun r => !(r.value = runeError ∧ r.bytes.length = 1)

/-- `fs.ValidPath`: unrooted, without empty and dot elements; the root is a dot. -/
def validPath (name : Str) : Bool :=
  validString name && (name = [dot] || (split slash name).all fun e => cleanKind e = .name)

inductive Entry where
  | file (content : Str)
  | directory
deriving DecidableEq

def indexPage : Str := str "/index.html"

/-- The embedded files by their names; a directory is there when something is in it. The
root is one, and the page of the application is in it. -/
structure Assets where
  files : List (Str × Str)
  index : Str
  index_lookup : files.lookup (str "index.html") = some index
  root_lookup : files.lookup [dot] = none

namespace Assets

/-- What there is under a valid name. -/
def lookup (a : Assets) (name : Str) : Option Entry :=
  match a.files.lookup name with
  | some content => some (.file content)
  | none =>
      if name = [dot] ∨ a.files.any (fun f => hasPrefix f.1 (name ++ [slash])) then some .directory
      else none

/-- `fs.Stat` and `Open` of the tree below `static`. -/
def stat (a : Assets) (name : Str) : Option Entry := if validPath name then a.lookup name else none

/-- `Open` of `http.FS`: a rooted name, the root being the dot. -/
def httpOpen (a : Assets) (name : Str) : Option Entry :=
  a.stat (if name = [slash] then [dot] else trimPrefix [slash] name)

end Assets

/-! ### The file server -/

/-- What the file server answers with. Content is what it hands to `serveContent`: the partial and
conditional answers that one makes of it are left out. -/
inductive Served where
  | content (name body : Str)
  | redirect (location : Str)
  | listing (name : Str)
  | notFound
  | openFailed
  | notDirectory
deriving DecidableEq

/-- `path.Clean` of a rooted path. -/
def pathClean (p : Str) : Str := slash :: join slash (resolve cleanKind (segments p))

/-- `localRedirect`. -/
def localRedirect (location rawQuery : Str) : Served := .redirect (withQuery location rawQuery)

/-- `serveFile`, with redirects to the canonical path. -/
def serveFile (a : Assets) (urlPath name rawQuery : Str) : Served :=
  if hasSuffix urlPath indexPage then localRedirect (str "./") rawQuery
  else
    match a.httpOpen name with
    | none => .openFailed
    | some (.file content) =>
        if urlPath.getLast? = some slash then
          if pathBase urlPath = [slash] ∨ pathBase urlPath = [dot] then .notDirectory
          else localRedirect (str "../" ++ pathBase urlPath) rawQuery
        else .content name content
    | some .directory =>
        if urlPath.getLast? ≠ some slash then localRedirect (pathBase urlPath ++ [slash]) rawQuery
        else
          let index := (if hasSuffix name [slash] then name.dropLast else name) ++ indexPage
          match a.httpOpen index with
          | some (.file content) => .content index content
          | some .directory => .listing index
          | none => .listing name

/-- `FileServer`: the path is rooted first. -/
def fileServer (a : Assets) (urlPath rawQuery : Str) : Served :=
  let upath := if hasPrefix urlPath [slash] then urlPath else slash :: urlPath
  serveFile a upath (pathClean upath) rawQuery

/-! ### The handler -/

structure StaticAnswer where
  header : Header
  served : Served
deriving DecidableEq

/-- The security headers of the application and its assets. -/
def appHeader (csp : Str) : Header :=
  (((Header.empty.set (str "Content-Security-Policy") csp).set (str "X-Content-Type-Options")
    (str "nosniff")).set (str "X-Frame-Options") (str "DENY")).set (str "Referrer-Policy")
    (str "no-referrer")

/-- The name a path asks for. -/
def assetName (urlPath : Str) : Str :=
  let path := trimPrefix [slash] urlPath
  if path = [] then str "index.html" else path

def staticHandler (csp : Str) (a : Assets) (r : Request) : StaticAnswer :=
  if hasPrefix r.url.path (str "/api/") then { header := Header.empty, served := .notFound }
  else
    let urlPath := if a.stat (assetName r.url.path) = none then [slash] else r.url.path
    { header := appHeader csp, served := fileServer a urlPath r.url.rawQuery }

/-! ### Valid names -/

theorem validPath_cases {name : Str} (h : validPath name = true) :
    name = [dot] ∨ ∀ e ∈ split slash name, cleanKind e = .name := by
  have hname := (Bool.and_eq_true_iff.mp h).2
  rcases Bool.or_eq_true_iff.mp hname with hdot | hall
  · exact .inl (of_decide_eq_true hdot)
  · exact .inr fun e he => of_decide_eq_true (List.all_eq_true.mp hall e he)

theorem getLast?_of_validPath {name : Str} (h : validPath name = true) :
    (slash :: name).getLast? ≠ some slash := by
  rcases validPath_cases h with rfl | hnames
  · decide
  · obtain ⟨init, last, hsplit⟩ : ∃ init last, split slash name = init ++ [last] := by
      rcases List.eq_nil_or_concat (split slash name) with hnil | ⟨init, last, hsplit⟩
      · exact absurd hnil (split_ne_nil slash name)
      · exact ⟨init, last, by rw [hsplit, List.concat_eq_append]⟩
    have hlast : last ∈ split slash name := by simp [hsplit]
    have hform : slash :: name = ofSegments (init ++ [last]) := by
      rw [ofSegments, ← hsplit, join_split]
    rw [hform, ne_eq, getLast?_ofSegments init (not_mem_of_mem_split hlast)]
    intro hnil
    have hkind := hnames last hlast
    rw [hnil, cleanKind_nil] at hkind
    cases hkind

theorem pathClean_of_names {name : Str} (h : ∀ e ∈ split slash name, cleanKind e = .name) :
    pathClean (slash :: name) = slash :: name := by
  rw [pathClean, segments_cons_slash, resolve_of_names h, join_split]

theorem httpOpen_pathClean {a : Assets} {name : Str} (h : validPath name = true) :
    a.httpOpen (pathClean (slash :: name)) = a.stat name := by
  rcases validPath_cases h with rfl | hnames
  · rfl
  · have hne : name ≠ [] := by
      rintro rfl
      have hkind := hnames [] (by simp)
      rw [cleanKind_nil] at hkind
      cases hkind
    unfold Assets.httpOpen
    rw [pathClean_of_names hnames, if_neg (by simpa using hne)]
    simp [trimPrefix]

theorem rooted_eq (urlPath : Str) :
    (if hasPrefix urlPath [slash] then urlPath else slash :: urlPath)
      = slash :: trimPrefix [slash] urlPath := by
  cases urlPath with
  | nil => rfl
  | cons c s =>
      by_cases hc : c = slash
      · simp [hasPrefix, trimPrefix, hc]
      · simp [hasPrefix, trimPrefix, Ne.symm hc]

/-! ### What the handler serves -/

section
variable {a : Assets} {urlPath rawQuery : Str}

theorem validPath_of_stat {name : Str} {e : Entry} (h : a.stat name = some e) :
    validPath name = true := by
  unfold Assets.stat at h
  split_ifs at h with hvalid
  exact hvalid

theorem stat_root : a.stat [dot] = some .directory := by
  have hvalid : validPath [dot] = true := by decide
  rw [Assets.stat, if_pos hvalid, Assets.lookup, a.root_lookup]
  rfl

theorem stat_index : a.stat (str "index.html") = some (.file a.index) := by
  have hvalid : validPath (str "index.html") = true := by decide
  rw [Assets.stat, if_pos hvalid, Assets.lookup, a.index_lookup]

theorem fileServer_file {body : Str} (h : a.stat (trimPrefix [slash] urlPath) = some (.file body)) :
    fileServer a urlPath rawQuery =
      if hasSuffix (slash :: trimPrefix [slash] urlPath) indexPage
        then localRedirect (str "./") rawQuery
      else .content (slash :: trimPrefix [slash] urlPath) body := by
  have hvalid := validPath_of_stat h
  have hopen := (httpOpen_pathClean hvalid).trans h
  have hlast := getLast?_of_validPath hvalid
  have hclean : pathClean (slash :: trimPrefix [slash] urlPath) =
      slash :: trimPrefix [slash] urlPath := by
    rcases validPath_cases hvalid with hdot | hnames
    · -- the root is no file
      rw [hdot, stat_root] at h
      cases h
    · exact pathClean_of_names hnames
  rw [hclean] at hopen
  unfold fileServer serveFile
  rw [rooted_eq]
  simp only [hclean, hopen, if_neg hlast]

/-- The redirect for a directory is its last element with a slash, unless it is called as an index
page is. -/
theorem fileServer_directory (h : a.stat (trimPrefix [slash] urlPath) = some .directory) :
    fileServer a urlPath rawQuery =
      localRedirect (if hasSuffix (slash :: trimPrefix [slash] urlPath) indexPage then str "./"
        else pathBase (slash :: trimPrefix [slash] urlPath) ++ [slash]) rawQuery := by
  have hvalid := validPath_of_stat h
  have hopen := (httpOpen_pathClean hvalid).trans h
  have hlast := getLast?_of_validPath hvalid
  unfold fileServer serveFile
  rw [rooted_eq]
  simp only [hopen, if_pos hlast]
  split_ifs
  · rfl
  · rfl

theorem fileServer_root : fileServer a [slash] rawQuery = .content indexPage a.index := by
  have hroot : a.httpOpen [slash] = some .directory := stat_root
  have hindex : a.httpOpen indexPage = some (.file a.index) := stat_index
  have hform : fileServer a [slash] rawQuery = serveFile a [slash] [slash] rawQuery := rfl
  have hsuffix : hasSuffix [slash] indexPage = false := by decide
  have hname : (if hasSuffix [slash] [slash] then [slash].dropLast else [slash]) ++
      indexPage = indexPage := rfl
  unfold serveFile at hform
  rw [hform, hsuffix, hroot]
  simp only [hname, hindex]
  rfl

theorem relative_cases (urlPath : Str) :
    (trimPrefix [slash] urlPath = [] ∧ assetName urlPath = str "index.html") ∨
      (trimPrefix [slash] urlPath ≠ [] ∧ assetName urlPath = trimPrefix [slash] urlPath) := by
  unfold assetName
  by_cases h : trimPrefix [slash] urlPath = []
  · exact .inl ⟨h, if_pos h⟩
  · exact .inr ⟨h, if_neg h⟩

variable {csp : Str} {r : Request}

theorem staticHandler_eq (h : hasPrefix r.url.path (str "/api/") = false) :
    staticHandler csp a r = {
      header := appHeader csp
      served := fileServer a (if a.stat (assetName r.url.path) = none then [slash] else r.url.path)
        r.url.rawQuery } := by
  unfold staticHandler
  rw [h]
  rfl

/-- A path that names nothing shows the page of the application. -/
theorem served_of_missing (hapi : hasPrefix r.url.path (str "/api/") = false)
    (h : a.stat (trimPrefix [slash] r.url.path) = none) :
    (staticHandler csp a r).served = .content indexPage a.index := by
  rw [staticHandler_eq hapi]
  dsimp only
  rcases relative_cases r.url.path with ⟨hnil, hname⟩ | ⟨-, hname⟩
  · have hroot : fileServer a r.url.path r.url.rawQuery = fileServer a [slash] r.url.rawQuery := by
      unfold fileServer
      rw [rooted_eq, rooted_eq, hnil]
      rfl
    rw [hname, stat_index, if_neg (Option.some_ne_none _), hroot, fileServer_root]
  · rw [hname, h, if_pos rfl, fileServer_root]

/-- A path that names something is handed on as it is. -/
theorem served_of_found {e : Entry} (hapi : hasPrefix r.url.path (str "/api/") = false)
    (h : a.stat (trimPrefix [slash] r.url.path) = some e) :
    (staticHandler csp a r).served = fileServer a r.url.path r.url.rawQuery := by
  rw [staticHandler_eq hapi]
  dsimp only
  rcases relative_cases r.url.path with ⟨hnil, -⟩ | ⟨-, hname⟩
  · have hvalid := validPath_of_stat h
    rw [hnil] at hvalid
    exact absurd hvalid (by decide)
  · rw [hname, h, if_neg (Option.some_ne_none _)]

theorem stat_of_slash (h : urlPath.getLast? = some slash) :
    a.stat (trimPrefix [slash] urlPath) = none := by
  rw [Option.eq_none_iff_forall_not_mem]
  intro e he
  have hlast := getLast?_of_validPath (validPath_of_stat he)
  rw [← rooted_eq] at hlast
  split_ifs at hlast
  · exact hlast h
  · cases urlPath with
    | nil => cases h
    | cons c s => exact hlast (by rw [List.getLast?_cons_cons, h])

end

/-- Outside the interface's own paths, every request is answered with a file, with the page
of the application, or with a redirect relative to its own path; and always with the security
headers. -/
theorem static_answers (a : Assets) (csp : Str) (r : Request)
    (hapi : hasPrefix r.url.path (str "/api/") = false) :
    (staticHandler csp a r).header = appHeader csp ∧
      (a.stat (trimPrefix [slash] r.url.path) = none →
        (staticHandler csp a r).served = .content indexPage a.index) ∧
      (∀ body, a.stat (trimPrefix [slash] r.url.path) = some (.file body) →
        (staticHandler csp a r).served =
          if hasSuffix (slash :: trimPrefix [slash] r.url.path) indexPage then
            localRedirect (str "./") r.url.rawQuery
          else .content (slash :: trimPrefix [slash] r.url.path) body) ∧
      (a.stat (trimPrefix [slash] r.url.path) = some .directory →
        (staticHandler csp a r).served =
          localRedirect (if hasSuffix (slash :: trimPrefix [slash] r.url.path) indexPage
            then str "./"
            else pathBase (slash :: trimPrefix [slash] r.url.path) ++ [slash]) r.url.rawQuery) ∧
      (r.url.path.getLast? = some slash →
        (staticHandler csp a r).served = .content indexPage a.index) := by
  refine ⟨by rw [staticHandler_eq hapi], served_of_missing hapi, ?_, ?_, ?_⟩
  · intro body h
    rw [served_of_found hapi h, fileServer_file h]
  · intro h
    rw [served_of_found hapi h, fileServer_directory h]
  · intro h
    exact served_of_missing hapi (stat_of_slash h)

/-- A tree with a script and a page in a directory, and a directory called as the page is. -/
def exampleAssets : Assets where
  files := [(str "index.html", str "page"), (str "assets/app.js", str "code"),
    (str "assets/index.html", str "hidden"), (str "docs/index.html/a.txt", str "text")]
  index := str "page"
  index_lookup := rfl
  root_lookup := by decide

def pageRequest (path : Str) : Request where
  method := str "GET"
  url := { path := path }
  header := Header.empty

/-- The directories redirect, and the first one to a path that shows the page of the application. -/
theorem static_answers_assets :
    (staticHandler [] exampleAssets (pageRequest (str "/assets"))).served =
        .redirect (str "assets/") ∧
      (staticHandler [] exampleAssets (pageRequest (str "/docs/index.html"))).served =
        .redirect (str "./") ∧
      (staticHandler [] exampleAssets (pageRequest (str "/assets/"))).served =
        .content indexPage (str "page") := by
  have hassets : exampleAssets.stat (str "assets") = some .directory := by decide +kernel
  have hdocs : exampleAssets.stat (str "docs/index.html") = some .directory := by decide +kernel
  have hfirst := static_answers exampleAssets [] (pageRequest (str "/assets")) (by decide)
  have hcalled := static_answers exampleAssets [] (pageRequest (str "/docs/index.html")) (by decide)
  have hsecond := static_answers exampleAssets [] (pageRequest (str "/assets/")) (by decide)
  refine ⟨?_, ?_, hsecond.2.2.2.2 (by decide)⟩
  · rw [hfirst.2.2.2.1 hassets]
    decide +kernel
  · rw [hcalled.2.2.2.1 hdocs]
    decide +kernel

end PierGateway.WebUI
