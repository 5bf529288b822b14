import QuantForge.NetworkCache
import QuantForge.Interleaving

/-!
# The files of the cache

`cache_response` writes two files for a URL, each by writing a temporary file and renaming it (`write_atomic`), and
`probe` reads the two files one after the other; there is no lock.  Here the calls for one URL are threads over the
four files, with the single file steps as actions.  Interleaved calls can leave the body of one response under the
metadata of another, and can take each other's temporary file away.  Neither happens in runs in which no call writes
the temporary body file while another is about to rename it and neither calls nor probes come between the two renames
of a call, if no call stops between them while older metadata is there (`hits_same_call`).
-/

namespace QuantForge

namespace Http

/-- Where a call of `cache_response` stands. -/
inductive StoreCall
  /-- before the temporary body file is written -/
  | writeBody
  | renameBody
  | writeMetadata
  | renameMetadata
  | returned
  /-- a file step failed by itself -/
  | failed
  /-- the temporary file was gone when it was to be renamed -/
  | robbed
  deriving DecidableEq

/-- Where a call of `probe` stands. -/
inductive ProbeCall
  | start
  | metadataRead (m : Meta)
  | missed
  | hit (m : Meta) (body : Text)
  deriving DecidableEq

namespace StoreCall

def isRunning : StoreCall → Bool
  | writeBody | renameBody | writeMetadata | renameMetadata => true
  | _ => false

/-- The body of the call is stored and its metadata is not. -/
def isHalfway : StoreCall → Bool
  | writeMetadata | renameMetadata => true
  | _ => false

end StoreCall

namespace ProbeCall

def isRunning : ProbeCall → Bool
  | start | metadataRead _ => true
  | _ => false

/-- The metadata is read and the body is not. -/
def isInside : ProbeCall → Bool
  | metadataRead _ => true
  | _ => false

end ProbeCall

/-- The files of one URL, with the calls of `cache_response` named by `ι` and those of `probe` by `κ`. -/
structure CacheFiles (ι κ : Type) where
  body : Option Text := none
  bodyTmp : Option Text := none
  metadata : Option Meta := none
  metadataTmp : Option Meta := none
  calls : ι → StoreCall := fun _ => .writeBody
  probes : κ → ProbeCall := fun _ => .start

inductive FileAction (ι κ : Type)
  /-- the next file step of a call -/
  | step (i : ι)
  /-- the next file step of a call fails, by no fault of the others -/
  | fail (i : ι)
  /-- the next file step of a probe -/
  | probe (j : κ)

namespace CacheFiles

variable {ι κ : Type}

def setCall [DecidableEq ι] (s : CacheFiles ι κ) (i : ι) (c : StoreCall) : CacheFiles ι κ :=
  { s with calls := Function.update s.calls i c }

def setProbe [DecidableEq κ] (s : CacheFiles ι κ) (j : κ) (c : ProbeCall) : CacheFiles ι κ :=
  { s with probes := Function.update s.probes j c }

/-- The next file step of a call that stores the given entry. -/
def stepCall [DecidableEq ι] (entry : CacheEntry) (s : CacheFiles ι κ) (i : ι) : CacheFiles ι κ :=
  match s.calls i with
  | .writeBody => { s.setCall i .renameBody with bodyTmp := some entry.body }
  | .renameBody =>
    match s.bodyTmp with
    | some b => { s.setCall i .writeMetadata with body := some b, bodyTmp := none }
    | none => s.setCall i .robbed
  | .writeMetadata => { s.setCall i .renameMetadata with metadataTmp := some entry.metadata }
  | .renameMetadata =>
    match s.metadataTmp with
    | some m => { s.setCall i .returned with metadata := some m, metadataTmp := none }
    | none => s.setCall i .robbed
  | _ => s

/-- The next file step of a probe: `load_meta`, then the body is opened. -/
def stepProbe [DecidableEq κ] (s : CacheFiles ι κ) (j : κ) : CacheFiles ι κ :=
  match s.probes j with
  | .start => s.setProbe j ((s.metadata.map ProbeCall.metadataRead).getD .missed)
  | .metadataRead m => s.setProbe j ((s.body.map (ProbeCall.hit m)).getD .missed)
  | _ => s

def Enabled : FileAction ι κ → CacheFiles ι κ → Prop
  | .step i, s => (s.calls i).isRunning = true
  | .fail i, s => (s.calls i).isRunning = true
  | .probe j, s => (s.probes j).isRunning = true

def effect [DecidableEq ι] [DecidableEq κ] (entries : ι → CacheEntry) :
    FileAction ι κ → CacheFiles ι κ → CacheFiles ι κ
  | .step i, s => s.stepCall (entries i) i
  | .fail i, s => s.setCall i .failed
  | .probe j, s => s.stepProbe j

/-- The calls that store the given entries, and the probes. -/
def accesses [DecidableEq ι] [DecidableEq κ] (entries : ι → CacheEntry) :
    Interleaving.System (CacheFiles ι κ) (FileAction ι κ) :=
  ⟨Enabled, effect entries⟩

instance [DecidableEq ι] [DecidableEq κ] (entries : ι → CacheEntry) :
    ∀ (a : FileAction ι κ) (s : CacheFiles ι κ), Decidable ((accesses entries).Enabled a s)
  | .step _, _ => inferInstanceAs (Decidable (_ = _))
  | .fail _, _ => inferInstanceAs (Decidable (_ = _))
  | .probe _, _ => inferInstanceAs (Decidable (_ = _))

/-- No call writes the temporary body file while another is about to rename it; between the two renames of a call
there are none of another and no step of a probe, and they do not come between the two steps of a probe; and a call
stops between its renames only if there is no metadata yet. -/
def Apart : FileAction ι κ → CacheFiles ι κ → Prop
  | .step i, s => (s.calls i = .writeBody → ∀ i', s.calls i' ≠ .renameBody) ∧
      (s.calls i = .renameBody → (∀ i', (s.calls i').isHalfway = false) ∧ ∀ j, (s.probes j).isInside = false)
  | .fail i, s => (s.calls i).isHalfway = true → s.metadata = none
  | .probe _, s => ∀ i, (s.calls i).isHalfway = false

instance [Fintype ι] [Fintype κ] : ∀ (a : FileAction ι κ) (s : CacheFiles ι κ), Decidable (Apart a s)
  | .step i, s => inferInstanceAs (Decidable ((s.calls i = .writeBody → ∀ i', s.calls i' ≠ .renameBody) ∧
      (s.calls i = .renameBody → (∀ i', (s.calls i').isHalfway = false) ∧ ∀ j, (s.probes j).isInside = false)))
  | .fail i, s => inferInstanceAs (Decidable ((s.calls i).isHalfway = true → s.metadata = none))
  | .probe _, s => inferInstanceAs (Decidable (∀ i, (s.calls i).isHalfway = false))

/-! ### The invariant -/

variable {entries : ι → CacheEntry} {s : CacheFiles ι κ}

/-- A body and metadata one call stores. -/
def SameCall (entries : ι → CacheEntry) (m : Meta) (b : Text) : Prop :=
  ∃ i, m = (entries i).metadata ∧ b = (entries i).body

/-- Metadata that is there belongs to the body that is there. -/
def Consistent (entries : ι → CacheEntry) (s : CacheFiles ι κ) : Prop :=
  ∀ m, s.metadata = some m → ∃ b, s.body = some b ∧ SameCall entries m b

/-- The temporary body file of a call that is about to rename it is its own, and the only one. -/
def Owned (entries : ι → CacheEntry) (s : CacheFiles ι κ) : Prop :=
  ∀ i, s.calls i = .renameBody → s.bodyTmp = some (entries i).body ∧ ∀ i', s.calls i' = .renameBody → i' = i

/-- No call is between its renames; a probe that has read the metadata has read what is there. -/
structure Quiet (entries : ι → CacheEntry) (s : CacheFiles ι κ) : Prop where
  calls : ∀ i, (s.calls i).isHalfway = false
  consistent : Consistent entries s
  reading : ∀ j m, s.probes j = .metadataRead m → s.metadata = some m

/-- One call is between its renames, and no probe between its reads. -/
structure Busy (entries : ι → CacheEntry) (s : CacheFiles ι κ) (i : ι) : Prop where
  halfway : (s.calls i).isHalfway = true
  others : ∀ i', i' ≠ i → (s.calls i').isHalfway = false
  body : s.body = some (entries i).body
  metadata : s.calls i = .renameMetadata → s.metadataTmp = some (entries i).metadata
  probes : ∀ j, (s.probes j).isInside = false

/-- Every hit has the body and the metadata of one call, and no call has lost its temporary file to another. -/
structure Unmixed (entries : ι → CacheEntry) (s : CacheFiles ι κ) : Prop where
  hits : ∀ j m b, s.probes j = .hit m b → SameCall entries m b
  calls : ∀ i, s.calls i ≠ .robbed

/-- The whole invariant of runs whose calls keep apart. -/
structure Kept (entries : ι → CacheEntry) (s : CacheFiles ι κ) : Prop where
  owned : Owned entries s
  phase : Quiet entries s ∨ ∃ i, Busy entries s i
  unmixed : Unmixed entries s

/-! ### The steps of a probe -/

/-- The entry the two files make up. -/
def storedEntry (s : CacheFiles ι κ) : Option CacheEntry :=
  s.metadata.bind fun m => s.body.map fun b => ⟨m, b⟩

section Probes

variable [DecidableEq κ]

theorem Unmixed.setProbe (h : Unmixed entries s) (j : κ) {c : ProbeCall}
    (hc : ∀ m b, c = .hit m b → SameCall entries m b) : Unmixed entries (s.setProbe j c) := by
  refine ⟨fun j' m b hj => ?_, h.calls⟩
  by_cases hj' : j' = j
  · subst hj'
    exact hc m b (by simpa [CacheFiles.setProbe] using hj)
  · exact h.hits j' m b (by simpa [CacheFiles.setProbe, hj'] using hj)

/-- A probe reads what belongs together, since no call is between its renames. -/
theorem Quiet.probe (h : Quiet entries s) (hu : Unmixed entries s) (j : κ) :
    Quiet entries (s.stepProbe j) ∧ Unmixed entries (s.stepProbe j) := by
  unfold stepProbe
  rcases hj : s.probes j with _ | m | _ | _
  case missed => exact ⟨h, hu⟩
  case hit => exact ⟨h, hu⟩
  case start =>
    refine ⟨⟨h.calls, h.consistent, fun j' m hm => ?_⟩, hu.setProbe j fun m b hc => ?_⟩
    · by_cases hj' : j' = j
      · subst hj'
        rcases hmeta : s.metadata with _ | m' <;> simp [setProbe, hmeta] at hm
        rw [← hm]
        exact hmeta
      · exact h.reading j' m (by simpa [setProbe, hj'] using hm)
    · rcases hmeta : s.metadata with _ | m' <;> simp [hmeta] at hc
  case metadataRead =>
    obtain ⟨b, hb, hsame⟩ := h.consistent m (h.reading j m hj)
    simp only [hb, Option.map_some, Option.getD_some]
    refine ⟨⟨h.calls, h.consistent, fun j' m' hm => ?_⟩, hu.setProbe j fun m' b' hc => ?_⟩
    · by_cases hj' : j' = j
      · subst hj'
        simp [setProbe] at hm
      · exact h.reading j' m' (by simpa [setProbe, hj'] using hm)
    · cases hc
      exact hsame

/-- The two steps of a probe, with nothing in between, find what `probe` finds in a store with the same entry. -/
theorem stepProbe_probe (s : CacheFiles ι κ) {j : κ} (hj : s.probes j = .start) {policy : NetworkCachePolicy}
    (hc : policy.enableCaching = true) {store : CacheStore} {req : Request}
    (hstore : store.lookup req.url = s.storedEntry) :
    ((s.stepProbe j).stepProbe j).probes j =
      ((Http.probe policy store req).map fun hit => .hit hit.entry.metadata hit.entry.body).getD .missed := by
  unfold storedEntry at hstore
  unfold Http.probe
  rw [hstore, if_pos hc]
  rcases hm : s.metadata with _ | m
  · simp [stepProbe, setProbe, hj, hm]
  · rcases hb : s.body with _ | b <;> simp [stepProbe, setProbe, hj, hm, hb]

end Probes

/-! ### The steps of a call -/

theorem Busy.not_reading {i : ι} (h : Busy entries s i) (j : κ) (m : Meta) : s.probes j ≠ .metadataRead m := by
  intro hm
  have hprobe := h.probes j
  rw [hm] at hprobe
  cases hprobe

section Calls

variable [DecidableEq ι]

theorem isHalfway_update {i : ι} {c : StoreCall} (h : ∀ i', i' ≠ i → (s.calls i').isHalfway = false)
    (hc : c.isHalfway = false) (i' : ι) : (Function.update s.calls i c i').isHalfway = false := by
  by_cases hi : i' = i
  · subst hi
    simpa using hc
  · simpa [hi] using h i' hi

theorem Unmixed.update (h : Unmixed entries s) {i : ι} {c : StoreCall} (hc : c ≠ .robbed) {s' : CacheFiles ι κ}
    (hcalls : s'.calls = Function.update s.calls i c) (hprobes : s'.probes = s.probes) : Unmixed entries s' := by
  refine ⟨fun j m b hj => ?_, fun i' => ?_⟩
  · rw [hprobes] at hj
    exact h.hits j m b hj
  · rw [hcalls]
    by_cases hi : i' = i
    · subst hi
      simpa using hc
    · simpa [hi] using h.calls i'

/-- A call moves on, not to its first rename, and the temporary body file stays or no other call waits for it. -/
theorem Owned.update (h : Owned entries s) {i : ι} {c : StoreCall} (hc : c ≠ .renameBody) {s' : CacheFiles ι κ}
    (hcalls : s'.calls = Function.update s.calls i c) (htmp : s'.bodyTmp = s.bodyTmp ∨ s.calls i = .renameBody) :
    Owned entries s' := by
  have hold : ∀ i', s'.calls i' = .renameBody → i' ≠ i ∧ s.calls i' = .renameBody := by
    intro i' hi'
    rw [hcalls] at hi'
    by_cases hi : i' = i
    · subst hi
      rw [Function.update_self] at hi'
      exact absurd hi' hc
    · rw [Function.update_of_ne hi] at hi'
      exact ⟨hi, hi'⟩
  intro i' hi'
  obtain ⟨hne, hi'⟩ := hold i' hi'
  obtain ⟨hbody, hall⟩ := h i' hi'
  rcases htmp with htmp | hi
  · exact ⟨htmp.trans hbody, fun i'' hi'' => hall i'' (hold i'' hi'').2⟩
  · exact absurd (hall i hi).symm hne

/-- A call that is not between its renames moves on to where it is not, and leaves the stored files alone. -/
theorem Quiet.update (h : Quiet entries s) {i : ι} {c : StoreCall} (hc : c.isHalfway = false) {s' : CacheFiles ι κ}
    (hcalls : s'.calls = Function.update s.calls i c) (hprobes : s'.probes = s.probes) (hbody : s'.body = s.body)
    (hmetadata : s'.metadata = s.metadata) : Quiet entries s' := by
  refine ⟨fun i' => ?_, fun m hm => ?_, fun j m hj => ?_⟩
  · rw [hcalls]
    exact isHalfway_update (fun i' _ => h.calls i') hc i'
  · rw [hmetadata] at hm
    rw [hbody]
    exact h.consistent m hm
  · rw [hprobes] at hj
    rw [hmetadata]
    exact h.reading j m hj

theorem Busy.update {i i' : ι} (h : Busy entries s i) (hne : i' ≠ i) {c : StoreCall} (hc : c.isHalfway = false)
    {s' : CacheFiles ι κ} (hcalls : s'.calls = Function.update s.calls i' c) (hprobes : s'.probes = s.probes)
    (hbody : s'.body = s.body) (hmetadata : s'.metadataTmp = s.metadataTmp) : Busy entries s' i := by
  have hsame : s'.calls i = s.calls i := by rw [hcalls, Function.update_of_ne hne.symm]
  refine ⟨hsame ▸ h.halfway, fun k hk => ?_, hbody.trans h.body, fun hi => ?_, fun j => ?_⟩
  · rw [hcalls]
    by_cases hki : k = i'
    · subst hki
      simpa using hc
    · simpa [hki] using h.others k hk
  · rw [hmetadata]
    exact h.metadata (hsame ▸ hi)
  · rw [hprobes]
    exact h.probes j

/-- A call writes its temporary body file. -/
theorem Kept.begin (h : Kept entries s) {i : ι} (hi : s.calls i = .writeBody)
    (hapart : ∀ i', s.calls i' ≠ .renameBody) : Kept entries (s.stepCall (entries i) i) := by
  unfold stepCall
  rw [hi]
  refine ⟨fun i' hi' => ?_, ?_, h.unmixed.update (by simp) rfl rfl⟩
  · have hself : ∀ k, Function.update s.calls i .renameBody k = .renameBody → k = i := by
      intro k hk
      by_contra hne
      rw [Function.update_of_ne hne] at hk
      exact hapart k hk
    obtain rfl := hself i' hi'
    exact ⟨rfl, hself⟩
  · rcases h.phase with hq | ⟨i₀, hb⟩
    · exact .inl (hq.update rfl rfl rfl rfl rfl)
    · refine .inr ⟨i₀, hb.update (fun heq => ?_) rfl rfl rfl rfl rfl⟩
      have hhalf := hb.halfway
      rw [← heq, hi] at hhalf
      cases hhalf

/-- A call renames its body, and is between its renames. -/
theorem Kept.renameBody (h : Kept entries s) {i : ι} (hi : s.calls i = .renameBody)
    (hcalls : ∀ i', (s.calls i').isHalfway = false) (hprobes : ∀ j, (s.probes j).isInside = false) :
    Kept entries (s.stepCall (entries i) i) := by
  obtain ⟨htmp, -⟩ := h.owned i hi
  unfold stepCall
  rw [hi]
  dsimp only
  rw [htmp]
  refine ⟨h.owned.update (by simp) rfl (.inr hi), .inr ⟨i, ?_, fun i' hne => ?_, rfl, fun hc => ?_, hprobes⟩,
    h.unmixed.update (by simp) rfl rfl⟩
  · simp [setCall, StoreCall.isHalfway]
  · simpa [setCall, hne] using hcalls i'
  · simp [setCall] at hc

/-- The call between its renames makes its next step, and returns with its own two files in place. -/
theorem Busy.step {i : ι} (h : Busy entries s i) (ho : Owned entries s) (hu : Unmixed entries s) :
    Kept entries (s.stepCall (entries i) i) := by
  have hhalf := h.halfway
  unfold stepCall
  rcases hi : s.calls i with _ | _ | _ | _ | _ | _ | _ <;> rw [hi] at hhalf <;> try cases hhalf
  case writeMetadata =>
    refine ⟨ho.update (by simp) rfl (.inl rfl), .inr ⟨i, ?_, fun i' hne => ?_, h.body, fun _ => rfl, h.probes⟩,
      hu.update (by simp) rfl rfl⟩
    · simp [setCall, StoreCall.isHalfway]
    · simpa [setCall, hne] using h.others i' hne
  case renameMetadata =>
    simp only [h.metadata hi]
    refine ⟨ho.update (by simp) rfl (.inl rfl),
      .inl ⟨isHalfway_update h.others rfl, fun m hm => ?_, fun j m hm => ?_⟩,
      hu.update (by simp) rfl rfl⟩
    · have hm' : (entries i).metadata = m := Option.some.inj hm
      exact ⟨_, h.body, i, hm'.symm, rfl⟩
    · exact (h.not_reading j m hm).elim

/-- The call between its renames fails when no metadata is there. -/
theorem Busy.fail {i : ι} (h : Busy entries s i) (hempty : s.metadata = none) :
    Quiet entries (s.setCall i .failed) := by
  refine ⟨isHalfway_update h.others rfl, fun m hm => ?_, fun j m hm => (h.not_reading j m hm).elim⟩
  rw [show (s.setCall i .failed).metadata = none from hempty] at hm
  cases hm

/-- The four steps of a call, with nothing in between, store what `cacheResponse` stores. -/
theorem storedEntry_cacheResponse (s : CacheFiles ι κ) {i : ι} (hi : s.calls i = .writeBody)
    {policy : NetworkCachePolicy} (hc : policy.enableCaching = true) (now : ℤ) (store : CacheStore) (req : Request)
    (resp : Response) :
    let e : CacheEntry := ⟨metaOf resp now, resp.body⟩
    ((((s.stepCall e i).stepCall e i).stepCall e i).stepCall e i).storedEntry =
      (cacheResponse policy now store req resp).lookup req.url := by
  simp [stepCall, setCall, hi, storedEntry, cacheResponse, hc]

end Calls

/-! ### Whole runs -/

theorem kept_init : Kept entries ({} : CacheFiles ι κ) := by
  refine ⟨?_, .inl ⟨fun _ => rfl, ?_, ?_⟩, ?_, ?_⟩
  · intro i hi
    cases hi
  · intro m hm
    cases hm
  · intro j m hm
    cases hm
  · intro j m b hm
    cases hm
  · intro i hi
    cases hi

variable [DecidableEq ι] [DecidableEq κ]

theorem Kept.effect {a : FileAction ι κ} (h : Kept entries s) (hen : (accesses entries).Enabled a s)
    (hG : Apart a s) : Kept entries ((accesses entries).effect a s) := by
  cases a with
  | step i =>
    by_cases hhalf : (s.calls i).isHalfway = true
    · rcases h.phase with hq | ⟨i₀, hb⟩
      · rw [hq.calls i] at hhalf
        cases hhalf
      · obtain rfl : i = i₀ := by
          by_contra hne
          rw [hb.others i hne] at hhalf
          cases hhalf
        exact hb.step h.owned h.unmixed
    · have hrun : (s.calls i).isRunning = true := hen
      rcases hi : s.calls i with _ | _ | _ | _ | _ | _ | _ <;> rw [hi] at hrun hhalf <;>
        simp [StoreCall.isRunning, StoreCall.isHalfway] at hrun hhalf
      case writeBody => exact h.begin hi (hG.1 hi)
      case renameBody => exact h.renameBody hi (hG.2 hi).1 (hG.2 hi).2
  | fail i =>
    refine ⟨h.owned.update (by simp) rfl (.inl rfl), ?_, h.unmixed.update (by simp) rfl rfl⟩
    rcases h.phase with hq | ⟨i₀, hb⟩
    · exact .inl (hq.update rfl rfl rfl rfl rfl)
    · by_cases hi : i = i₀
      · subst hi
        exact .inl (hb.fail (hG hb.halfway))
      · exact .inr ⟨i₀, hb.update hi rfl rfl rfl rfl rfl⟩
  | probe j =>
    rcases h.phase with hq | ⟨i₀, hb⟩
    · obtain ⟨hq', hu'⟩ := hq.probe h.unmixed j
      refine ⟨?_, .inl hq', hu'⟩
      show Owned entries (s.stepProbe j)
      unfold stepProbe
      split
      · exact h.owned
      · exact h.owned
      · exact h.owned
    · have hhalf := hG i₀
      rw [hb.halfway] at hhalf
      cases hhalf

/-- In every run in which no call writes the temporary body file while another is about to rename it, neither calls
nor probes come between the two renames of a call, and no call stops there while older metadata is there, each hit has
the body and the metadata of one call, and no call loses its temporary file. -/
theorem hits_same_call (hr : (accesses entries).Reaches Apart {} s) :
    (∀ j m b, s.probes j = .hit m b → ∃ i, m = (entries i).metadata ∧ b = (entries i).body) ∧
      ∀ i, s.calls i ≠ .robbed := by
  have hkept : Kept entries s := hr.invariant kept_init fun _ _ h hen hG => h.effect hen hG
  exact ⟨hkept.unmixed.hits, hkept.unmixed.calls⟩

/-! ### Two calls -/

/-- What two answers for the same URL store. -/
def twoEntries : Bool → CacheEntry
  | false => ⟨metaOf { status := 200, etag := "A".toList } 1700000000, "bars of A".toList⟩
  | true => ⟨metaOf { status := 200, etag := "B".toList } 1700000001, "bars of B".toList⟩

/-- The second call writes its temporary body file between the renames of the first, and goes on when the first has
returned and a probe has read both files; a second probe at the end. -/
def overlapping : List (FileAction Bool Bool) :=
  [.step false, .step false, .step true, .step false, .step false, .probe false, .probe false, .step true, .step true,
    .step true, .probe true, .probe true]

theorem hits_same_call_overlapping :
    ∃ s : CacheFiles Bool Bool, (accesses twoEntries).run Apart overlapping {} = some s ∧
      (∀ j, s.probes j = .hit (twoEntries j).metadata (twoEntries j).body) ∧
      (∀ j m b, s.probes j = .hit m b → ∃ i, m = (twoEntries i).metadata ∧ b = (twoEntries i).body) ∧
      ∀ i, s.calls i ≠ .robbed := by
  refine ⟨((accesses twoEntries).run Apart overlapping {}).get (by decide), by simp, by decide, ?_⟩
  exact hits_same_call (Interleaving.System.reaches_of_run (Option.some_get _).symm)

/-- The second call stores both files while the first is between its two. -/
def overtaken : List (FileAction Bool Unit) :=
  [.step false, .step false, .step true, .step true, .step true, .step true, .step false, .step false,
    .probe (), .probe ()]

/-- Both calls write the temporary body file before either renames it. -/
def sameTmp : List (FileAction Bool Unit) := [.step false, .step true, .step false, .step true]

/-- Both calls return and a later probe finds the body of one under the metadata of the other; and a call fails
because another one has renamed its temporary file. -/
theorem entries_mixed :
    (∃ s : CacheFiles Bool Unit, (accesses twoEntries).run Interleaving.System.Anything overtaken {} = some s ∧
      (∀ i, s.calls i = .returned) ∧ s.probes () = .hit (twoEntries false).metadata (twoEntries true).body ∧
      ¬ ∃ i, (twoEntries false).metadata = (twoEntries i).metadata ∧ (twoEntries true).body = (twoEntries i).body) ∧
    ∃ s : CacheFiles Bool Unit, (accesses twoEntries).run Interleaving.System.Anything sameTmp {} = some s ∧
      s.calls true = .robbed := by
  refine ⟨⟨((accesses twoEntries).run Interleaving.System.Anything overtaken {}).get (by decide), by simp, by decide,
    by decide, by decide⟩, ?_⟩
  exact ⟨((accesses twoEntries).run Interleaving.System.Anything sameTmp {}).get (by decide), by simp, by decide⟩

end CacheFiles

end Http

end QuantForge
