import QuantForge.NetworkCache
import QuantForge.Decimal

/-!
# The metadata files

`save_meta_atomic` writes the nine fields of a `Meta` as lines, and `load_meta` reads lines back, each cut at its
first colon.  What is written is read back (`loadMeta_saveMetaAtomic`), whatever colons, commas and blanks the texts
hold, as long as no text has a line break or a space at its ends.  So the files of the cache hold the store of
`NetworkCache`: `probe` answers from them as from the store (`Disk.Holds.probe_eq`), and `cache_response` and
`refresh_meta_timestamp` keep it so (`Disk.Holds.cacheResponse`, `Disk.Holds.refreshMetaTimestamp`).
-/

namespace QuantForge

namespace Http

open Strings (trim isSpace printLong)

/-! ### Files -/

/-- The files, by their paths. -/
abbrev Disk := Map Text Text

def tmpFileExt : Text := ".tmp".toList

/-- `std::filesystem::rename`. -/
def rename (disk : Disk) (source target : Text) : Disk :=
  match disk.lookup source with
  | some bytes => (disk.erase source).insert target bytes
  | none => disk

/-- `write_atomic`, if no step fails by itself. -/
def writeAtomic (disk : Disk) (path bytes : Text) : Disk :=
  rename (disk.insert (path ++ tmpFileExt) bytes) (path ++ tmpFileExt) path

/-- The lines `std::getline` reads one after the other. -/
def lines : Text → List Text
  | [] => []
  | c :: s =>
    if c = '\n' then [] :: lines s
    else
      match lines s with
      | [] => [[c]]
      | line :: rest => (c :: line) :: rest

/-! ### `save_meta_atomic` and `load_meta` -/

/-- The fields, in the order of their lines. -/
inductive MetaKey
  | status
  | etag
  | lastModified
  | contentType
  | cacheControl
  | retryAfter
  | rateLimitRemaining
  | rateLimitReset
  | unixTsS
  deriving DecidableEq

/-- `as_long` and `as_i64`: the number, or the default if anything stands behind it. -/
def asLong (s : Text) (default : ℤ) : ℤ := if (Strings.strtol s).2 = [] then (Strings.strtol s).1 else default

namespace MetaKey

def all : List MetaKey :=
  [status, etag, lastModified, contentType, cacheControl, retryAfter, rateLimitRemaining, rateLimitReset, unixTsS]

def text : MetaKey → Text
  | status => "status".toList
  | etag => "etag".toList
  | lastModified => "last_modified".toList
  | contentType => "content_type".toList
  | cacheControl => "cache_control".toList
  | retryAfter => "retry_after".toList
  | rateLimitRemaining => "rate_limit_remaining".toList
  | rateLimitReset => "rate_limit_reset".toList
  | unixTsS => "unix_ts_s".toList

/-- The comparisons of `load_meta`, one after the other. -/
def ofText? (key : Text) : Option MetaKey := all.find? fun k => k.text = key

/-- What is written of the field. -/
def print (m : Meta) : MetaKey → Text
  | status => printLong m.status
  | etag => m.etag
  | lastModified => m.lastModified
  | contentType => m.contentType
  | cacheControl => m.cacheControl
  | retryAfter => m.retryAfter
  | rateLimitRemaining => printLong m.rateLimitRemaining
  | rateLimitReset => printLong m.rateLimitReset
  | unixTsS => printLong m.unixTsS

/-- What is set to a text that was read. -/
def set (out : Meta) (value : Text) : MetaKey → Meta
  | status => { out with status := asLong value 0 }
  | etag => { out with etag := value }
  | lastModified => { out with lastModified := value }
  | contentType => { out with contentType := value }
  | cacheControl => { out with cacheControl := value }
  | retryAfter => { out with retryAfter := value }
  | rateLimitRemaining => { out with rateLimitRemaining := asLong value (-1) }
  | rateLimitReset => { out with rateLimitReset := asLong value (-1) }
  | unixTsS => { out with unixTsS := asLong value 0 }

end MetaKey

def metaLine (m : Meta) (k : MetaKey) : Text := k.text ++ ": ".toList ++ k.print m ++ "\n".toList

/-- What `save_meta_atomic` writes. -/
def metaText (m : Meta) : Text := MetaKey.all.flatMap (metaLine m)

def saveMetaAtomic (disk : Disk) (path : Text) (m : Meta) : Disk := writeAtomic disk path (metaText m)

/-- A line cut at its first colon. -/
def keyValue? (line : Text) : Option (Text × Text) :=
  if ':' ∈ line then some (trim (line.takeWhile (· ≠ ':')), trim ((line.dropWhile (· ≠ ':')).drop 1)) else none

def loadLine (out : Meta) (line : Text) : Meta :=
  match keyValue? line with
  | some (key, value) => ((MetaKey.ofText? key).map (MetaKey.set out value)).getD out
  | none => out

/-- `load_meta`: the result and what is left in `out`. -/
def loadMeta (disk : Disk) (path : Text) (out : Meta) : Bool × Meta :=
  match disk.lookup path with
  | some text => (true, (lines text).foldl loadLine out)
  | none => (false, out)

/-! ### What a line can hold -/

/-- A text without a line break and without a space at its ends. -/
structure OneLine (s : Text) : Prop where
  newline : '\n' ∉ s
  first : ∀ c ∈ s.head?, isSpace c = false
  last : ∀ c ∈ s.getLast?, isSpace c = false

/-- The value of a `long`. -/
structure IsLong (n : ℤ) : Prop where
  min : Strings.int64Min ≤ n
  max : n ≤ Strings.int64Max

/-- All texts are lines, and all numbers are `long`. -/
structure Storable (m : Meta) : Prop where
  status : IsLong m.status
  etag : OneLine m.etag
  lastModified : OneLine m.lastModified
  contentType : OneLine m.contentType
  cacheControl : OneLine m.cacheControl
  retryAfter : OneLine m.retryAfter
  rateLimitRemaining : IsLong m.rateLimitRemaining
  rateLimitReset : IsLong m.rateLimitReset
  unixTsS : IsLong m.unixTsS

theorem OneLine.trim_eq {s : Text} (h : OneLine s) : trim s = s := Strings.trim_eq_self h.first h.last

theorem oneLine_of_any {s : Text} (hnewline : '\n' ∉ s) (hfirst : s.head?.any isSpace = false)
    (hlast : s.getLast?.any isSpace = false) : OneLine s where
  newline := hnewline
  first c hc := by simpa [Option.mem_def.1 hc] using hfirst
  last c hc := by simpa [Option.mem_def.1 hc] using hlast

theorem oneLine_printLong (n : ℤ) : OneLine (printLong n) where
  newline h := absurd (Strings.isSpace_of_mem_printLong h) (by decide)
  first _ hc := Strings.isSpace_of_mem_printLong (List.mem_of_mem_head? hc)
  last _ hc := Strings.isSpace_of_mem_printLong (List.mem_of_mem_getLast? hc)

theorem IsLong.asLong_printLong {n : ℤ} (h : IsLong n) (default : ℤ) : asLong (printLong n) default = n := by
  unfold asLong
  rw [Strings.strtol_printLong h.min h.max]
  rfl

theorem lines_append {line : Text} (h : '\n' ∉ line) (rest : Text) :
    lines (line ++ '\n' :: rest) = line :: lines rest := by
  induction line with
  | nil => simp [lines]
  | cons c line ih =>
    rw [List.mem_cons, not_or] at h
    rw [List.cons_append, lines, if_neg (Ne.symm h.1), ih h.2]

theorem keyValue?_append {key value : Text} (hcolon : ':' ∉ key) (hkey : trim key = key) (hvalue : OneLine value) :
    keyValue? (key ++ ": ".toList ++ value) = some (key, value) := by
  have hne : ∀ c ∈ key, decide (c ≠ ':') = true := by
    intro c hc
    exact decide_eq_true fun h => hcolon (h ▸ hc)
  have hline : key ++ ": ".toList ++ value = key ++ ':' :: ' ' :: value := by simp
  have hspace : trim (' ' :: value) = value := by
    rw [← List.singleton_append, Strings.trim_append_left (by simp; decide), hvalue.trim_eq]
  unfold keyValue?
  rw [hline, List.takeWhile_append_of_pos hne, List.dropWhile_append_of_pos hne]
  simp [hkey, hspace]

namespace MetaKey

theorem ofText?_text (k : MetaKey) : ofText? k.text = some k := by
  cases k <;> decide

theorem colon_notMem_text (k : MetaKey) : ':' ∉ k.text := by
  cases k <;> decide

theorem newline_notMem_text (k : MetaKey) : '\n' ∉ k.text := by
  cases k <;> decide

theorem trim_text (k : MetaKey) : trim k.text = k.text := by
  cases k <;> decide

theorem oneLine_print {m : Meta} (h : Storable m) (k : MetaKey) : OneLine (k.print m) := by
  cases k with
  | status => exact oneLine_printLong _
  | etag => exact h.etag
  | lastModified => exact h.lastModified
  | contentType => exact h.contentType
  | cacheControl => exact h.cacheControl
  | retryAfter => exact h.retryAfter
  | rateLimitRemaining => exact oneLine_printLong _
  | rateLimitReset => exact oneLine_printLong _
  | unixTsS => exact oneLine_printLong _

end MetaKey

section RoundTrip

variable {m : Meta} (h : Storable m)
include h

/-- The next line sets its field. -/
theorem foldl_metaLine (out : Meta) (k : MetaKey) (rest : Text) :
    (lines (metaLine m k ++ rest)).foldl loadLine out = (lines rest).foldl loadLine (k.set out (k.print m)) := by
  have hprint := k.oneLine_print h
  have hnewline : '\n' ∉ k.text ++ ": ".toList ++ k.print m := by
    simp [k.newline_notMem_text, hprint.newline]
  have hline : metaLine m k ++ rest = (k.text ++ ": ".toList ++ k.print m) ++ '\n' :: rest := by simp [metaLine]
  rw [hline, lines_append hnewline, List.foldl_cons, loadLine,
    keyValue?_append k.colon_notMem_text k.trim_text hprint]
  simp only [k.ofText?_text, Option.map_some, Option.getD_some]

theorem foldl_metaLines (keys : List MetaKey) (out : Meta) :
    (lines (keys.flatMap (metaLine m))).foldl loadLine out = keys.foldl (fun out k => k.set out (k.print m)) out := by
  induction keys generalizing out with
  | nil => rfl
  | cons k keys ih => rw [List.flatMap_cons, foldl_metaLine h, ih, List.foldl_cons]

/-- Reading the text of a `Meta` gives the `Meta`. -/
theorem foldl_metaText (out : Meta) : (lines (metaText m)).foldl loadLine out = m := by
  rw [metaText, foldl_metaLines h]
  simp [MetaKey.all, MetaKey.set, MetaKey.print, h.status.asLong_printLong, h.rateLimitRemaining.asLong_printLong,
    h.rateLimitReset.asLong_printLong, h.unixTsS.asLong_printLong]

end RoundTrip

theorem lookup_writeAtomic (disk : Disk) (path bytes path' : Text) :
    (writeAtomic disk path bytes).lookup path' =
      if path' = path then some bytes else if path' = path ++ tmpFileExt then none else disk.lookup path' := by
  unfold writeAtomic rename
  simp only [Map.lookup_insert_eq, Map.lookup_erase_eq, if_true]
  split
  · rfl
  · split <;> rfl

/-- What `save_meta_atomic` has written is what `load_meta` reads. -/
theorem loadMeta_saveMetaAtomic {m : Meta} (h : Storable m) (disk : Disk) (path : Text) (out : Meta) :
    loadMeta (saveMetaAtomic disk path m) path out = (true, m) := by
  unfold loadMeta saveMetaAtomic
  rw [lookup_writeAtomic, if_pos rfl]
  simp only [foldl_metaText h]

/-- An answer whose texts are full of separators, and the least `long`. -/
def datedMeta : Meta where
  unixTsS := 1761994800
  status := 200
  etag := "W/\"a: b,c\"".toList
  lastModified := "Sat, 01 Nov 2025 11:00:00 GMT".toList
  cacheControl := "public, max-age=60".toList
  retryAfter := ":".toList
  rateLimitReset := Strings.int64Min

theorem storable_datedMeta : Storable datedMeta where
  status := by constructor <;> decide
  etag := oneLine_of_any (by decide) (by decide) (by decide)
  lastModified := oneLine_of_any (by decide) (by decide) (by decide)
  contentType := oneLine_of_any (by decide) (by decide) (by decide)
  cacheControl := oneLine_of_any (by decide) (by decide) (by decide)
  retryAfter := oneLine_of_any (by decide) (by decide) (by decide)
  rateLimitRemaining := by constructor <;> decide
  rateLimitReset := by constructor <;> decide
  unixTsS := by constructor <;> decide

theorem loadMeta_saveMetaAtomic_dated :
    Storable datedMeta ∧ loadMeta (saveMetaAtomic ∅ "1.meta".toList datedMeta) "1.meta".toList { unixTsS := 7 } =
      (true, datedMeta) :=
  ⟨storable_datedMeta, loadMeta_saveMetaAtomic storable_datedMeta ∅ _ _⟩

/-! ### The cache on the disk -/

inductive CacheFile
  | body
  | metadata
  deriving DecidableEq

namespace CacheFile

def fileExt : CacheFile → Text
  | body => ".body".toList
  | metadata => ".meta".toList

/-- `create_base_path` and `append_to_path`, with the `std::hash` of the library. -/
def path (hash : Text → ℕ) (url : Text) (file : CacheFile) : Text :=
  "cache/http/".toList ++ Nat.toDigits 10 (hash url) ++ file.fileExt

end CacheFile

namespace Disk

/-- `probe`; `unset` is what the uninitialised `unix_ts_s_` happens to be. -/
def probe (hash : Text → ℕ) (unset : ℤ) (policy : NetworkCachePolicy) (disk : Disk) (req : Request) : Option Hit :=
  if policy.enableCaching then
    match loadMeta disk (CacheFile.metadata.path hash req.url) { unixTsS := unset } with
    | (true, m) => (disk.lookup (CacheFile.body.path hash req.url)).map fun body => ⟨req.url, m, body⟩
    | (false, _) => none
  else none

def cacheResponse (hash : Text → ℕ) (policy : NetworkCachePolicy) (now : ℤ) (disk : Disk) (req : Request)
    (resp : Response) : Disk :=
  if policy.enableCaching then
    saveMetaAtomic (writeAtomic disk (CacheFile.body.path hash req.url) resp.body)
      (CacheFile.metadata.path hash req.url) (metaOf resp now)
  else disk

def refreshMetaTimestamp (hash : Text → ℕ) (now : ℤ) (disk : Disk) (hit : Hit) : Disk :=
  saveMetaAtomic disk (CacheFile.metadata.path hash hit.url) { hit.entry.metadata with unixTsS := now }

/-- For the given URLs the files hold what the store holds. -/
structure Holds (hash : Text → ℕ) (urls : Set Text) (disk : Disk) (store : CacheStore) : Prop where
  metadata : ∀ url ∈ urls, disk.lookup (CacheFile.metadata.path hash url) =
    (store.lookup url).map fun entry => metaText entry.metadata
  body : ∀ url ∈ urls, ∀ entry, store.lookup url = some entry →
    disk.lookup (CacheFile.body.path hash url) = some entry.body
  storable : ∀ url ∈ urls, ∀ entry, store.lookup url = some entry → Storable entry.metadata

end Disk

section Paths

variable {hash : Text → ℕ} {url url' : Text} {file file' : CacheFile}

theorem dot_notMem_base (n : ℕ) : '.' ∉ "cache/http/".toList ++ Nat.toDigits 10 n := by
  intro h
  rcases List.mem_append.1 h with h | h
  · exact absurd h (by decide)
  · exact absurd (Strings.isDigit_toDigits n '.' h) (by decide)

theorem takeWhile_base (n : ℕ) (ext : Text) :
    ("cache/http/".toList ++ Nat.toDigits 10 n ++ '.' :: ext).takeWhile (· ≠ '.') =
      "cache/http/".toList ++ Nat.toDigits 10 n := by
  rw [List.takeWhile_append_of_pos fun c hc => decide_eq_true (ne_of_mem_of_not_mem hc (dot_notMem_base n))]
  simp

/-- A path tells the hash of the URL and the extension. -/
theorem base_append_inj {n n' : ℕ} {ext ext' : Text}
    (h : "cache/http/".toList ++ Nat.toDigits 10 n ++ '.' :: ext =
      "cache/http/".toList ++ Nat.toDigits 10 n' ++ '.' :: ext') : n = n' ∧ ext = ext' := by
  have hbase := congrArg (List.takeWhile (· ≠ '.')) h
  rw [takeWhile_base, takeWhile_base] at hbase
  rw [hbase] at h
  refine ⟨?_, (List.cons.inj (List.append_cancel_left h)).2⟩
  rw [← Strings.digitsValue_toDigits n, List.append_cancel_left hbase, Strings.digitsValue_toDigits]

theorem fileExt_eq (file : CacheFile) : file.fileExt = '.' :: file.fileExt.tail := by
  cases file <;> decide

theorem path_eq (file : CacheFile) :
    file.path hash url = "cache/http/".toList ++ Nat.toDigits 10 (hash url) ++ '.' :: file.fileExt.tail := by
  rw [← fileExt_eq]
  rfl

theorem path_inj (h : file.path hash url = file'.path hash url') : hash url = hash url' ∧ file = file' := by
  rw [path_eq, path_eq] at h
  obtain ⟨hhash, hext⟩ := base_append_inj h
  refine ⟨hhash, ?_⟩
  cases file <;> cases file' <;> first | rfl | exact absurd hext (by decide)

theorem path_ne_tmp : file'.path hash url' ≠ file.path hash url ++ tmpFileExt := by
  intro h
  rw [path_eq, path_eq, List.append_assoc _ ('.' :: _), List.cons_append] at h
  have hext := (base_append_inj h).2
  cases file <;> cases file' <;> exact absurd hext (by decide)

/-- Writing one file of the cache changes no other one. -/
theorem lookup_writeAtomic_path {urls : Set Text} (hinj : Set.InjOn hash urls) (hurl : url ∈ urls)
    (hurl' : url' ∈ urls) (disk : Disk) (bytes : Text) :
    (writeAtomic disk (file.path hash url) bytes).lookup (file'.path hash url') =
      if url' = url ∧ file' = file then some bytes else disk.lookup (file'.path hash url') := by
  rw [lookup_writeAtomic, if_neg path_ne_tmp]
  by_cases h : file'.path hash url' = file.path hash url
  · obtain ⟨hhash, hfile⟩ := path_inj h
    rw [if_pos h, if_pos ⟨hinj hurl' hurl hhash, hfile⟩]
  · rw [if_neg h, if_neg]
    rintro ⟨rfl, rfl⟩
    exact h rfl

end Paths

namespace Disk

variable {hash : Text → ℕ} {urls : Set Text} {policy : NetworkCachePolicy} {disk disk' : Disk} {store : CacheStore}

theorem holds_empty : Holds hash urls ∅ ∅ :=
  ⟨fun _ _ => rfl, fun _ _ _ h => absurd h (by simp), fun _ _ _ h => absurd h (by simp)⟩

/-- The files of one URL are written, those of the others stay. -/
theorem Holds.insert (h : Holds hash urls disk store) {url : Text} {entry : CacheEntry}
    (hentry : Storable entry.metadata)
    (hmetadata : ∀ url' ∈ urls, disk'.lookup (CacheFile.metadata.path hash url') =
      if url' = url then some (metaText entry.metadata) else disk.lookup (CacheFile.metadata.path hash url'))
    (hbody : ∀ url' ∈ urls, disk'.lookup (CacheFile.body.path hash url') =
      if url' = url then some entry.body else disk.lookup (CacheFile.body.path hash url')) :
    Holds hash urls disk' (store.insert url entry) := by
  refine ⟨fun url' hurl' => ?_, fun url' hurl' entry' hentry' => ?_, fun url' hurl' entry' hentry' => ?_⟩
  · rw [hmetadata url' hurl', Map.lookup_insert_eq, h.metadata url' hurl']
    split <;> rfl
  · rw [Map.lookup_insert_eq] at hentry'
    rw [hbody url' hurl']
    by_cases heq : url' = url
    · rw [if_pos heq] at hentry' ⊢
      rw [Option.some.inj hentry']
    · rw [if_neg heq] at hentry' ⊢
      exact h.body url' hurl' entry' hentry'
  · rw [Map.lookup_insert_eq] at hentry'
    split at hentry'
    · rwa [← Option.some.inj hentry']
    · exact h.storable url' hurl' entry' hentry'

/-- `probe` finds in the files what is in the store. -/
theorem Holds.probe_eq (h : Holds hash urls disk store) {req : Request} (hreq : req.url ∈ urls) (unset : ℤ) :
    disk.probe hash unset policy req = Http.probe policy store req := by
  unfold Disk.probe Http.probe loadMeta
  rw [h.metadata req.url hreq]
  rcases hentry : store.lookup req.url with _ | entry
  · rfl
  · simp [foldl_metaText (h.storable req.url hreq entry hentry), h.body req.url hreq entry hentry]

variable (hinj : Set.InjOn hash urls)
include hinj

theorem Holds.cacheResponse (h : Holds hash urls disk store) {req : Request} (hreq : req.url ∈ urls) {now : ℤ}
    {resp : Response} (hresp : Storable (metaOf resp now)) :
    Holds hash urls (disk.cacheResponse hash policy now req resp) (Http.cacheResponse policy now store req resp) := by
  unfold Disk.cacheResponse Http.cacheResponse
  split
  · refine h.insert hresp (fun url hurl => ?_) fun url hurl => ?_
    · rw [saveMetaAtomic, lookup_writeAtomic_path hinj hreq hurl, lookup_writeAtomic_path hinj hreq hurl]
      simp
    · rw [saveMetaAtomic, lookup_writeAtomic_path hinj hreq hurl, lookup_writeAtomic_path hinj hreq hurl]
      simp
  · exact h

theorem Holds.refreshMetaTimestamp (h : Holds hash urls disk store) {hit : Hit} (hurl : hit.url ∈ urls)
    (hhit : store.lookup hit.url = some hit.entry) {now : ℤ} (hnow : IsLong now) :
    Holds hash urls (disk.refreshMetaTimestamp hash now hit) (Http.refreshMetaTimestamp now store hit) := by
  unfold Disk.refreshMetaTimestamp Http.refreshMetaTimestamp
  refine h.insert { h.storable _ hurl _ hhit with unixTsS := hnow } (fun url hurl' => ?_) fun url hurl' => ?_
  · rw [saveMetaAtomic, lookup_writeAtomic_path hinj hurl hurl']
    simp
  · rw [saveMetaAtomic, lookup_writeAtomic_path hinj hurl hurl']
    split
    · rename_i heq
      simp at heq
    · split
      · rename_i heq
        rw [heq, h.body _ hurl _ hhit]
      · rfl

end Disk

end Http

end QuantForge
