import Morphir.Artifacts.Attempt

/-!
# Contiguous reads

What the accepted chunks of an attempt say about the bytes that were received: the chunks of
an artifact follow one another from its first byte, and their bytes are the artifact's.
-/

namespace Morphir.Artifacts

open List Attempt

/-- The chunks of an artifact, with their offsets, in the order of the reads. -/
def chunksOf (reads : List (Read × Chunk)) (artifact : Artifact) : List (Nat × Bytes) :=
  (reads.filter fun r => r.1.artifact = artifact).map fun r => (r.2.offset, r.2.content)

def contents (chunks : List (Nat × Bytes)) : Bytes := (chunks.map Prod.snd).flatten

def Contiguous : Nat → List (Nat × Bytes) → Prop
  | _, [] => True
  | offset, chunk :: chunks => chunk.1 = offset ∧ Contiguous (offset + chunk.2.length) chunks

structure ReadWhole (reads : List (Read × Chunk)) (artifact : Artifact) (bytes : Bytes) :
    Prop where
  nonempty : chunksOf reads artifact ≠ []
  contiguous : Contiguous 0 (chunksOf reads artifact)
  contents : contents (chunksOf reads artifact) = bytes
  length : bytes.length = artifact.byteLength

def OfGeneration (reads : List (Read × Chunk)) (manifest : Manifest) : Prop :=
  ∀ r ∈ reads, r.2.accepted r.1 = true ∧ r.1.generationId = manifest.generationId

structure Complete (reads : List (Read × Chunk)) (files : Verified) : Prop where
  artifacts : files.files.map Prod.fst = files.manifest.artifacts
  whole : ∀ f ∈ files.files, ReadWhole reads f.1 f.2
  generation : OfGeneration reads files.manifest

/-- The artifacts that are done were read whole, and the others not at all. -/
structure ReadUpTo (reads : List (Read × Chunk)) (manifest : Manifest)
    (bytes : List (String × Bytes)) (done rest : List Artifact) : Prop where
  whole : ∀ artifact ∈ done, ∀ source, OrdMap.get? bytes artifact.id = some source →
    ReadWhole reads artifact source
  untouched : ∀ artifact ∈ rest, chunksOf reads artifact = []
  generation : OfGeneration reads manifest

/-- The loop stands at a read: an artifact is read up to the offset. -/
structure Reading (reads : List (Read × Chunk)) (done : List Artifact) (p : Progress) :
    Prop where
  artifacts : p.manifest.artifacts = done ++ p.artifact :: p.rest
  upTo : ReadUpTo reads p.manifest p.bytes done p.rest
  contiguous : Contiguous 0 (chunksOf reads p.artifact)
  received : contents (chunksOf reads p.artifact) = p.received.take p.offset
  length : p.received.length = p.artifact.byteLength
  offset_le : p.offset ≤ p.artifact.byteLength

def weight (artifacts : List Artifact) : Nat := (artifacts.map fun a => a.byteLength + 1).sum

lemma weight_append (front back : List Artifact) :
    weight (front ++ back) = weight front + weight back := by simp [weight]

lemma weight_cons (a : Artifact) (rest : List Artifact) :
    weight (a :: rest) = a.byteLength + 1 + weight rest := by simp [weight]

lemma Manifest.weight_le (manifest : Manifest) : weight manifest.artifacts ≤ 67109120 := by
  have hsum : weight manifest.artifacts =
      (manifest.artifacts.map Artifact.byteLength).sum + manifest.artifacts.length := by
    unfold weight
    induction manifest.artifacts with
    | nil => rfl
    | cons a rest ih =>
      simp only [map_cons, sum_cons, length_cons]
      omega
  have hlen := manifest.count_le
  have hbs := manifest.aggregate_le
  omega

variable {reads : List (Read × Chunk)} {read : Read} {chunk : Chunk}

@[simp] lemma chunksOf_nil (artifact : Artifact) : chunksOf [] artifact = [] := rfl

lemma chunksOf_snoc_self (reads : List (Read × Chunk)) (read : Read) (chunk : Chunk) :
    chunksOf (reads ++ [(read, chunk)]) read.artifact =
      chunksOf reads read.artifact ++ [(chunk.offset, chunk.content)] := by
  simp [chunksOf]

variable {artifact : Artifact}

lemma chunksOf_snoc_ne (h : read.artifact ≠ artifact) :
    chunksOf (reads ++ [(read, chunk)]) artifact = chunksOf reads artifact := by
  simp [chunksOf, h]

lemma contents_snoc (chunks : List (Nat × Bytes)) (chunk : Nat × Bytes) :
    contents (chunks ++ [chunk]) = contents chunks ++ chunk.2 := by
  simp [contents]

lemma contiguous_snoc {start : Nat} {chunks : List (Nat × Bytes)} {chunk : Nat × Bytes}
    (h : Contiguous start chunks) (hchunk : chunk.1 = start + (contents chunks).length) :
    Contiguous start (chunks ++ [chunk]) := by
  induction chunks generalizing start with
  | nil => exact ⟨by simpa [contents] using hchunk, trivial⟩
  | cons first rest ih =>
    obtain ⟨hfst, hr⟩ := h
    refine ⟨hfst, ih hr ?_⟩
    rw [hchunk]
    simp only [contents, map_cons, flatten_cons, length_append]
    omega

lemma ReadWhole.snoc {bytes : Bytes} (h : ReadWhole reads artifact bytes)
    (hne : read.artifact ≠ artifact) : ReadWhole (reads ++ [(read, chunk)]) artifact bytes := by
  have hchu : chunksOf (reads ++ [(read, chunk)]) artifact = chunksOf reads artifact :=
    chunksOf_snoc_ne hne
  refine ⟨?_, ?_, ?_, h.length⟩
  · rw [hchu]
    exact h.nonempty
  · rw [hchu]
    exact h.contiguous
  · rw [hchu]
    exact h.contents

variable {bytes : List (String × Bytes)} {manifest : Manifest} {done rest : List Artifact}

lemma ReadUpTo.snoc (h : ReadUpTo reads manifest bytes done rest) (hdo : read.artifact ∉ done)
    (hrest : read.artifact ∉ rest) (hacc : chunk.accepted read = true)
    (hrd : read.generationId = manifest.generationId) :
    ReadUpTo (reads ++ [(read, chunk)]) manifest bytes done rest where
  whole artifact hart source hsrc := by
    apply (h.whole artifact hart source hsrc).snoc
    exact fun heq => hdo (heq ▸ hart)
  untouched artifact hart := by
    rw [chunksOf_snoc_ne fun heq => hrest (heq ▸ hart)]
    exact h.untouched artifact hart
  generation r hr := by
    rcases mem_append.mp hr with hr | hr
    · exact h.generation r hr
    · obtain rfl := mem_singleton.mp hr
      exact ⟨hacc, hrd⟩

lemma length_set {received content : Bytes} {offset : Nat}
    (h : offset + content.length ≤ received.length) :
    (set received content offset).length = received.length := by
  simp only [Attempt.set, length_append, length_take, length_drop]
  omega

lemma take_set {received content : Bytes} {offset : Nat}
    (h : offset + content.length ≤ received.length) :
    (set received content offset).take (offset + content.length) =
      received.take offset ++ content := by
  have hlen : (received.take offset ++ content).length = offset + content.length := by
    simp only [length_append, length_take]
    omega
  rw [Attempt.set, ← hlen, take_left]

def Progress.next (p : Progress) : Read :=
  ⟨p.manifest.generationId, p.artifact, p.offset, chunkLimit⟩

lemma Chunk.accepted_next {p : Progress} (h : chunk.accepted p.next = true) :
    chunk.offset = p.offset ∧
      chunk.content.length = min chunkLimit (p.artifact.byteLength - p.offset) ∧
      chunk.nextOffset = p.offset + chunk.content.length := by
  obtain ⟨-, -, hoff, hlen, hnx⟩ := of_decide_eq_true h
  exact ⟨hoff, hlen, hnx.trans (congrArg (· + chunk.content.length) hoff)⟩

lemma artifact_notMem (h : manifest.artifacts = done ++ artifact :: rest) :
    (∀ other ∈ done, other.id ≠ artifact.id) ∧ artifact ∉ done ∧ artifact ∉ rest := by
  have hnd := manifest.nodup
  rw [h, map_append, nodup_append] at hnd
  obtain ⟨-, hr, hap⟩ := hnd
  have hids : ∀ other ∈ done, other.id ≠ artifact.id := fun other ho =>
    hap _ (mem_map_of_mem ho) _ mem_cons_self
  refine ⟨hids, fun hmem => hids artifact hmem rfl, fun hmem => ?_⟩
  exact (nodup_cons.mp hr).1 (mem_map_of_mem hmem)

lemma ReadUpTo.begin (h : ReadUpTo reads manifest bytes done (artifact :: rest))
    (hart : manifest.artifacts = done ++ artifact :: rest) :
    Reading reads done
      { manifest, bytes, artifact, rest
        received := List.replicate artifact.byteLength 0
        offset := 0 } where
  artifacts := hart
  upTo := ⟨h.whole, fun other ho => h.untouched other (mem_cons_of_mem _ ho), h.generation⟩
  contiguous := by
    rw [h.untouched artifact mem_cons_self]
    trivial
  received := by
    rw [h.untouched artifact mem_cons_self]
    rfl
  length := length_replicate
  offset_le := Nat.zero_le _

section Received

variable {before : List Artifact} {p : Progress}

lemma Reading.received_chunk (h : Reading reads before p) (hacc : chunk.accepted p.next = true) :
    chunk.nextOffset ≤ p.artifact.byteLength ∧
      (chunk.nextOffset < p.artifact.byteLength → p.offset < chunk.nextOffset) ∧
      Reading (reads ++ [(p.next, chunk)]) before
        { p with
          received := set p.received chunk.content p.offset
          offset := chunk.nextOffset } := by
  obtain ⟨hoff, hlen, hnx⟩ := Chunk.accepted_next hacc
  have hle := h.offset_le
  have hlim : chunkLimit = 65536 := rfl
  obtain ⟨-, hdo, hr⟩ := artifact_notMem h.artifacts
  have hfi : p.offset + chunk.content.length ≤ p.received.length := by
    rw [h.length]
    omega
  have hconts : (contents (chunksOf reads p.artifact)).length = p.offset := by
    rw [h.received, length_take]
    omega
  refine ⟨by omega, by omega, ?_⟩
  constructor
  case artifacts => exact h.artifacts
  case upTo => exact h.upTo.snoc hdo hr hacc rfl
  case contiguous =>
    change Contiguous 0 (chunksOf (reads ++ [(p.next, chunk)]) p.next.artifact)
    rw [chunksOf_snoc_self]
    apply contiguous_snoc h.contiguous
    omega
  case received =>
    change contents (chunksOf (reads ++ [(p.next, chunk)]) p.next.artifact) = _
    rw [chunksOf_snoc_self, contents_snoc, hnx, take_set hfi]
    exact congrArg (· ++ chunk.content) h.received
  case length => exact (length_set hfi).trans h.length
  case offset_le =>
    change chunk.nextOffset ≤ p.artifact.byteLength
    omega

lemma Reading.complete (h : Reading reads before p) (hchu : chunksOf reads p.artifact ≠ [])
    (hend : p.artifact.byteLength ≤ p.offset) :
    ReadUpTo reads p.manifest (OrdMap.insert p.bytes p.artifact.id p.received)
      (before ++ [p.artifact]) p.rest where
  whole artifact hart source hsrc := by
    rw [OrdMap.get?_insert] at hsrc
    obtain ⟨hids, -, -⟩ := artifact_notMem h.artifacts
    rcases mem_append.mp hart with hart | hart
    · rw [if_neg (hids artifact hart).symm] at hsrc
      exact h.upTo.whole artifact hart source hsrc
    · obtain rfl := mem_singleton.mp hart
      rw [if_pos rfl] at hsrc
      cases hsrc
      refine ⟨hchu, h.contiguous, ?_, h.length⟩
      rw [h.received, take_of_length_le]
      rw [h.length]
      exact hend
  untouched := h.upTo.untouched
  generation := h.upTo.generation

end Received

lemma inventory_files {artifacts : List Artifact} {files : List (Artifact × Bytes)}
    (h : inventory.files bytes artifacts = .ok files) :
    files.map Prod.fst = artifacts ∧ ∀ f ∈ files, OrdMap.get? bytes f.1.id = some f.2 := by
  induction artifacts generalizing files with
  | nil =>
    cases h
    exact ⟨rfl, by simp⟩
  | cons artifact rest ih =>
    rw [inventory.files] at h
    cases hsrc : OrdMap.get? bytes artifact.id with
    | none => simp [hsrc] at h
    | some source =>
      simp only [hsrc] at h
      split at h
      · cases h
      cases hfls : inventory.files bytes rest with
      | error failure => simp [hfls] at h
      | ok others =>
        simp only [hfls, Except.ok.injEq] at h
        obtain ⟨hmap, hget⟩ := ih hfls
        subst h
        refine ⟨by simp [hmap], fun f hf => ?_⟩
        rcases mem_cons.mp hf with rfl | hf
        · exact hsrc
        · exact hget f hf

lemma ReadUpTo.inventory {files : Verified}
    (h : ReadUpTo reads manifest bytes manifest.artifacts [])
    (hfls : inventory manifest bytes = .ok files) :
    files.manifest = manifest ∧ Complete reads files := by
  unfold Attempt.inventory at hfls
  split at hfls
  · cases hfls
  cases hall : inventory.files bytes manifest.artifacts with
  | error failure => simp [hall] at hfls
  | ok all =>
    simp only [hall, Except.ok.injEq] at hfls
    subst hfls
    obtain ⟨hmap, hget⟩ := inventory_files hall
    refine ⟨rfl, hmap, fun f hf => ?_, h.generation⟩
    apply h.whole f.1 _ f.2 (hget f hf)
    have hmem : f.1 ∈ all.map Prod.fst := mem_map_of_mem hf
    rwa [hmap] at hmem

end Morphir.Artifacts

/-!
## Who owns the connection

The resource of an attempt says what its connection may still be asked for.  Only a ready
connection is asked for anything, the release belongs to the one clean-up that started it,
and a connection that is closed is never asked again.
-/

namespace Morphir.Artifacts

open List

def Traffic.generates : Traffic → Bool
  | .exchange .generate _ => true
  | _ => false

def Traffic.releases : Traffic → Bool
  | .exchange (.release _ _) _ => true
  | _ => false

/-- After a close nothing is asked for, and after a loss nothing is sent. -/
def Traffic.Before (earlier later : Traffic) : Prop :=
  ∀ frame sent, later = .exchange frame sent → earlier ≠ .close ∧ (earlier = .lost → sent = false)

def Cleanup.generation? : Cleanup → Option String
  | .released generationId => some generationId
  | .connectionClosed generationId _ => generationId
  | _ => none

def Release.generation? : Release → Option String
  | .started manifest => some manifest.generationId
  | .waiting manifest _ => some manifest.generationId
  | .settled cleanup => cleanup.generation?
  | .done cleanup => cleanup.generation?
  | .none | .raised => Option.none

def Release.begun : Release → Bool
  | .none => false
  | .started _ => false
  | _ => true

def idLimit : Nat := 67109123

def ready : Option Manifest → Resource
  | none => .connected
  | some manifest => .retained manifest

namespace Attempt

variable (codec : Codec) (a : Attempt)

/-- The connection is obtained and not closed by the attempt, nor is it released. -/
def InUse : Prop := a.channel ≠ none ∧ .close ∉ a.traffic ∧ a.release = .none

def Owned : Prop :=
  match a.resource with
  | .unconnected => a.channel = none ∧ a.release = .none
  | .connected => a.InUse
  | .retained _ => a.InUse
  | .exchanging _ => a.InUse
  | .releasing =>
    a.channel ≠ none ∧
      match a.release with
      | .started _ => .close ∉ a.traffic
      | .waiting manifest id =>
        .close ∉ a.traffic ∧ ∃ sent, .exchange (.release manifest.generationId id) sent ∈ a.traffic
      | .settled _ => a.channel = some true
      | _ => False
  | .closed cleanup =>
    a.channel ≠ some false ∧
      (a.release = .none ∧ (∀ g, cleanup ≠ .released g) ∨ a.release = .done cleanup)

structure Acknowledged : Prop where
  answered : ∀ g id reply, (g, id, reply) ∈ a.acknowledged →
    codec.released reply id = true ∧ ∃ sent, .exchange (.release g id) sent ∈ a.traffic
  released : ∀ cleanup, a.release = .settled cleanup ∨ a.release = .done cleanup →
    ∀ g, cleanup = .released g → ∃ id reply, (g, id, reply) ∈ a.acknowledged

/-- Whom the calls of `cancel` hear from: those that came during the release hear its report,
and nothing else. -/
structure Reported : Prop where
  waiting : (∃ k, k ∈ a.waiting) → a.resource = .releasing
  reports_lt : ∀ k report, (k, report) ∈ a.reports → k < a.cancels
  joined_lt : ∀ k ∈ a.joined, k < a.cancels
  joined : ∀ k ∈ a.joined, k ∈ a.waiting ∧ (∀ report, (k, report) ∉ a.reports) ∨
    ∃ done, a.release = .done done ∧ ∀ report, (k, report) ∈ a.reports ↔ report = done
  waiting_sub : ∀ k ∈ a.waiting, k ∈ a.joined

structure Custody : Prop where
  untouched : a.channel = none → a.traffic = []
  isOpen : a.channel = some false → .close ∉ a.traffic ∧ .lost ∉ a.traffic
  ordered : a.traffic.Pairwise Traffic.Before
  owned : a.Owned
  generates : a.traffic.countP Traffic.generates ≤ 1
  releases : a.traffic.countP Traffic.releases ≤ if a.release.begun then 1 else 0
  ids : a.release.begun = false → a.nextId ≤ idLimit
  acknowledged : Acknowledged codec a
  reported : a.Reported

variable {codec : Codec} {a : Attempt}

lemma InUse.obtained (h : a.InUse) : a.channel ≠ none := h.1

lemma InUse.unclosed (h : a.InUse) : .close ∉ a.traffic := h.2.1

lemma InUse.unreleased (h : a.InUse) : a.release = .none := h.2.2

lemma Custody.still (h : Custody codec a) (task : Task) (phase : Phase) (result : Option Result)
    (reads : List (Read × Chunk)) (measured : List (Bytes × String)) :
    Custody codec
      { a with
        task := task
        phase := phase
        result := result
        reads := reads
        measured := measured } :=
  ⟨h.1, h.2, h.3, h.4, h.5, h.6, h.7, ⟨h.8.1, h.8.2⟩, ⟨h.9.1, h.9.2, h.9.3, h.9.4, h.9.5⟩⟩

lemma Custody.withId (h : Custody codec a) {id : Nat} (hid : id ≤ idLimit) :
    Custody codec { a with nextId := id } :=
  ⟨h.1, h.2, h.3, h.4, h.5, h.6, fun _ => hid, ⟨h.8.1, h.8.2⟩, ⟨h.9.1, h.9.2, h.9.3, h.9.4, h.9.5⟩⟩

lemma isOpen_iff : a.isOpen = true ↔ a.channel = some false := by simp [isOpen]

lemma closeChannel_channel (h : a.channel ≠ none) : a.closeChannel.channel = some true := by
  unfold closeChannel
  split
  · exact absurd ‹_› h
  · rfl

lemma closeChannel_traffic (h : a.channel ≠ none) :
    a.closeChannel.traffic = a.traffic ++ [.close] := by
  unfold closeChannel
  split
  · exact absurd ‹_› h
  · rfl

lemma closeChannel_fields (a : Attempt) :
    ∃ channel traffic, a.closeChannel = { a with channel := channel, traffic := traffic } := by
  unfold closeChannel
  split <;> exact ⟨_, _, rfl⟩

lemma ordered_close {traffic : List Traffic} (h : traffic.Pairwise Traffic.Before) :
    (traffic ++ [Traffic.close]).Pairwise Traffic.Before := by
  apply pairwise_append.mpr
  refine ⟨h, pairwise_singleton _ _, ?_⟩
  rintro earlier - later hlat frame sent heq
  rw [mem_singleton.mp hlat] at heq
  cases heq

lemma ordered_exchange (hcus : Custody codec a) (hclo : .close ∉ a.traffic) (frame : Frame) :
    (a.traffic ++ [Traffic.exchange frame a.isOpen]).Pairwise Traffic.Before := by
  apply pairwise_append.mpr
  refine ⟨hcus.ordered, pairwise_singleton _ _, ?_⟩
  intro earlier hear later hlat frame' sent heq
  rw [mem_singleton.mp hlat] at heq
  obtain ⟨-, rfl⟩ := Traffic.exchange.inj heq
  refine ⟨fun h => hclo (h ▸ hear), fun h => ?_⟩
  cases hop : a.isOpen with
  | false => rfl
  | true => exact absurd (h ▸ hear) (hcus.isOpen (isOpen_iff.mp hop)).2

lemma InUse.resource_ne (hu : a.InUse) (howned : a.Owned) : a.resource ≠ .releasing := by
  intro h
  unfold Owned at howned
  rw [h, hu.unreleased] at howned
  exact howned.2

lemma Owned.releasing (h : a.Owned) (hno : a.release ≠ .none)
    (hdo : ∀ report, a.release ≠ .done report) : a.resource = .releasing := by
  unfold Owned at h
  split at h
  case h_1 => exact absurd h.2 hno
  case h_2 | h_3 | h_4 => exact absurd h.unreleased hno
  case h_5 hsr => exact hsr
  case h_6 report _ =>
    rcases h.2 with h | h
    · exact absurd h.1 hno
    · exact absurd h (hdo report)

lemma Owned.inUse {retained : Option Manifest} (h : a.Owned)
    (hrd : a.resource = ready retained ∨ a.resource = .exchanging retained) : a.InUse := by
  unfold Owned at h
  rcases hrd with hrd | hrd
  · cases retained <;> simpa [hrd, ready] using h
  · simpa [hrd] using h

lemma Reported.moved (h : a.Reported) (resource : Resource) (release : Release)
    (channel : Option Bool) (traffic : List Traffic) (nextId : Nat)
    (acknowledged : List (String × Nat × String))
    (hsr : a.resource = .releasing → resource = .releasing)
    (hrel : a.release = release ∨ ∀ report, a.release ≠ .done report) :
    Reported
      { a with
        resource := resource
        release := release
        channel := channel
        traffic := traffic
        nextId := nextId
        acknowledged := acknowledged } := by
  refine ⟨fun hwai => hsr (h.waiting hwai), h.2, h.3, fun k hk => ?_, h.5⟩
  rcases h.joined k hk with hwai | ⟨report, hdo, hrep⟩
  · exact .inl hwai
  rcases hrel with hsm | hnot
  · exact .inr ⟨report, hsm ▸ hdo, hrep⟩
  · exact absurd hdo (hnot report)

lemma Acknowledged.traffic (h : Acknowledged codec a) (resource : Resource)
    (channel : Option Bool) (more : List Traffic) :
    Acknowledged codec
      { a with resource := resource, channel := channel, traffic := a.traffic ++ more } := by
  refine ⟨fun g id reply hmem => ?_, h.released⟩
  obtain ⟨hrep, sent, hsn⟩ := h.answered g id reply hmem
  exact ⟨hrep, sent, mem_append_left _ hsn⟩

lemma Custody.close (h : Custody codec a) (hu : a.InUse) {report : Cleanup}
    (hrpt : ∀ g, report ≠ .released g) :
    Custody codec { a.closeChannel with resource := .closed report } := by
  obtain ⟨channel, traffic, heq⟩ := a.closeChannel_fields
  have hchn := closeChannel_channel hu.obtained
  have htra := closeChannel_traffic hu.obtained
  rw [heq] at hchn htra ⊢
  subst hchn htra
  constructor
  case untouched | isOpen => exact fun h => nomatch h
  case ordered => exact ordered_close h.ordered
  case owned => exact ⟨nofun, .inl ⟨hu.unreleased, hrpt⟩⟩
  case generates => simpa [Traffic.generates] using h.generates
  case releases => simpa [Traffic.releases] using h.releases
  case ids => exact h.ids
  case acknowledged => exact h.acknowledged.traffic _ _ _
  case reported => exact h.reported.moved _ _ _ _ _ _ (absurd · (hu.resource_ne h.owned)) (.inl rfl)

lemma Custody.ask (h : Custody codec a) (hu : a.InUse) {frame : Frame}
    (hrel : Traffic.releases (.exchange frame a.isOpen) = false)
    (hgen : Traffic.generates (.exchange frame a.isOpen) = true →
      a.traffic.countP Traffic.generates = 0) (retained : Option Manifest) :
    Custody codec { (a.send frame) with resource := .exchanging retained } := by
  have hclo : .close ∉ a.traffic ++ [Traffic.exchange frame a.isOpen] := by simpa using hu.unclosed
  constructor
  case untouched => exact fun hno => absurd hno hu.obtained
  case isOpen =>
    intro hop
    refine ⟨hclo, ?_⟩
    change .lost ∉ a.traffic ++ [Traffic.exchange frame a.isOpen]
    simpa using (h.isOpen hop).2
  case ordered => exact ordered_exchange h hu.unclosed frame
  case owned => exact ⟨hu.obtained, hclo, hu.unreleased⟩
  case generates =>
    change (a.traffic ++ [Traffic.exchange frame a.isOpen]).countP Traffic.generates ≤ 1
    rw [countP_append, countP_singleton]
    have hcnt := h.generates
    split
    · rw [hgen ‹_›]
    · exact hcnt
  case releases =>
    change (a.traffic ++ [Traffic.exchange frame a.isOpen]).countP Traffic.releases ≤ _
    rw [countP_append, countP_singleton, hrel]
    exact h.releases
  case ids => exact h.ids
  case acknowledged => exact h.acknowledged.traffic _ _ _
  case reported => exact h.reported.moved _ _ _ _ _ _ (absurd · (hu.resource_ne h.owned)) (.inl rfl)

lemma Custody.hold (h : Custody codec a) (hu : a.InUse) (retained : Option Manifest) :
    Custody codec { a with resource := ready retained } where
  untouched := h.untouched
  isOpen := h.isOpen
  ordered := h.ordered
  owned := by cases retained <;> exact hu
  generates := h.generates
  releases := h.releases
  ids := h.ids
  acknowledged := ⟨h.acknowledged.1, h.acknowledged.2⟩
  reported := h.reported.moved _ _ _ _ _ _ (absurd · (hu.resource_ne h.owned)) (.inl rfl)

lemma cleanup_fields (a : Attempt) :
    ∃ resource phase channel traffic release,
      a.cleanup.1 =
        { a with
          resource := resource
          phase := phase
          channel := channel
          traffic := traffic
          release := release } := by
  obtain ⟨channel, traffic, heq⟩ := a.closeChannel_fields
  unfold cleanup
  split
  case h_1 | h_2 | h_3 => exact ⟨_, _, _, _, _, rfl⟩
  case h_4 =>
    rw [heq]
    exact ⟨_, _, _, _, _, rfl⟩
  case h_5 =>
    rw [heq]
    exact ⟨_, _, _, _, _, rfl⟩
  case h_6 =>
    rw [heq]
    split <;> exact ⟨_, _, _, _, _, rfl⟩

lemma cleanup_resource (a : Attempt) :
    a.cleanup.2 = none ∧ a.cleanup.1.resource = .releasing ∨
      ∃ report, a.cleanup.2 = some report ∧ a.cleanup.1.resource = .closed report := by
  unfold cleanup
  split
  case h_1 => exact .inr ⟨_, rfl, ‹_›⟩
  case h_2 => exact .inl ⟨rfl, ‹_›⟩
  case h_6 =>
    split
    · exact .inl ⟨rfl, rfl⟩
    · exact .inr ⟨_, rfl, rfl⟩
  all_goals exact .inr ⟨_, rfl, rfl⟩

lemma cleanup_closed {report : Cleanup} (h : a.resource = .closed report) :
    a.cleanup = (a, some report) := by
  unfold cleanup
  rw [h]

lemma cleanup_releasing (h : a.resource = .releasing) : a.cleanup = (a, none) := by
  unfold cleanup
  rw [h]

lemma cleanup_unconnected (h : a.resource = .unconnected) :
    a.cleanup = ({ a with resource := .closed .notConnected }, some .notConnected) := by
  unfold cleanup
  rw [h]

lemma cleanup_exchanging {manifest : Option Manifest} (h : a.resource = .exchanging manifest) :
    a.cleanup.1.release = a.release := by
  obtain ⟨channel, traffic, heq⟩ := a.closeChannel_fields
  unfold cleanup
  rw [h]
  simp only [heq]

lemma cleanup_retained {manifest : Manifest} (h : a.resource = .retained manifest) :
    a.cleanup.2 = none ∧ a.cleanup.1.release = .started manifest ∨
      a.cleanup.2 =
        some (.connectionClosed (some manifest.generationId) .unknownRetention) := by
  unfold cleanup
  rw [h]
  dsimp only
  split
  · exact .inl ⟨rfl, rfl⟩
  · exact .inr rfl

section

variable (h : Custody codec a)

include h

lemma Custody.startCleanup (hu : a.InUse) (manifest : Manifest) :
    Custody codec { a with resource := .releasing, release := .started manifest } where
  untouched := h.untouched
  isOpen := h.isOpen
  ordered := h.ordered
  owned := ⟨hu.obtained, hu.unclosed⟩
  generates := h.generates
  releases := by simpa [hu.unreleased, Release.begun] using h.releases
  ids := fun _ => h.ids (by simp [hu.unreleased, Release.begun])
  acknowledged := ⟨h.acknowledged.answered, by simp⟩
  reported := h.reported.moved _ _ _ _ _ _ (fun _ => rfl) (.inr (by simp [hu.unreleased]))

lemma Custody.cleanup : Custody codec a.cleanup.1 := by
  have howned := h.owned
  unfold Owned at howned
  unfold Attempt.cleanup
  split
  case h_1 | h_2 => exact h
  case h_3 hsr =>
    rw [hsr] at howned
    exact ⟨h.1, h.2, h.3, ⟨by simp [howned.1], .inl ⟨howned.2, nofun⟩⟩, h.5, h.6, h.7,
      ⟨h.8.1, h.8.2⟩, h.reported.moved _ _ _ _ _ _ (by simp [hsr]) (.inl rfl)⟩
  case h_4 hsr =>
    rw [hsr] at howned
    exact h.close howned nofun
  case h_5 hsr =>
    rw [hsr] at howned
    exact h.close howned nofun
  case h_6 hsr =>
    rw [hsr] at howned
    split
    · exact (h.startCleanup howned _).still _ _ _ _ _
    · exact h.close howned nofun

lemma Custody.report {k : Nat} (hjoi : ∀ j ∈ a.joined, j < k) (hk : k < a.cancels)
    (report : Cleanup) : Custody codec { a with reports := a.reports ++ [(k, report)] } := by
  refine ⟨h.1, h.2, h.3, h.4, h.5, h.6, h.7, ⟨h.8.1, h.8.2⟩, ?_⟩
  constructor
  case waiting => exact h.reported.waiting
  case reports_lt =>
    intro j report' hmem
    rcases mem_append.mp hmem with hmem | hmem
    · exact h.reported.reports_lt j report' hmem
    · obtain ⟨rfl, -⟩ := Prod.mk.inj (mem_singleton.mp hmem)
      exact hk
  case joined_lt => exact h.reported.joined_lt
  case joined =>
    intro j hj
    have hsm (report' : Cleanup) :
        (j, report') ∈ a.reports ++ [(k, report)] ↔ (j, report') ∈ a.reports := by
      have hlt := hjoi j hj
      have hne : j ≠ k := by omega
      simp [hne]
    simpa only [hsm] using h.reported.joined j hj
  case waiting_sub => exact h.reported.waiting_sub

lemma Custody.join {k : Nat} (hrep : ∀ j r, (j, r) ∈ a.reports → j < k) (hk : k < a.cancels)
    (hsr : a.resource = .releasing) :
    Custody codec { a with waiting := a.waiting ++ [k], joined := a.joined ++ [k] } := by
  refine ⟨h.1, h.2, h.3, h.4, h.5, h.6, h.7, ⟨h.8.1, h.8.2⟩, ?_⟩
  constructor
  case waiting => exact fun _ => hsr
  case reports_lt => exact h.reported.reports_lt
  case joined_lt =>
    intro j hj
    rcases mem_append.mp hj with hj | hj
    · exact h.reported.joined_lt j hj
    · obtain rfl := mem_singleton.mp hj
      exact hk
  case joined =>
    intro j hj
    rcases mem_append.mp hj with hj | hj
    · rcases h.reported.joined j hj with ⟨hwai, hno⟩ | hdo
      · exact .inl ⟨mem_append_left _ hwai, hno⟩
      · exact .inr hdo
    · obtain rfl := mem_singleton.mp hj
      refine .inl ⟨mem_append_right _ mem_cons_self, fun report hmem => ?_⟩
      exact absurd (hrep j report hmem) (Nat.lt_irrefl j)
  case waiting_sub =>
    intro j hj
    rcases mem_append.mp hj with hj | hj
    · exact mem_append_left _ (h.reported.waiting_sub j hj)
    · exact mem_append_right _ hj

lemma Custody.cancel : Custody codec a.cancel := by
  have hlat : Custody codec { a with aborted := true, cancels := a.cancels + 1 } :=
    ⟨h.1, h.2, h.3, h.4, h.5, h.6, h.7, ⟨h.8.1, h.8.2⟩,
      ⟨h.9.1, fun k r hk => Nat.lt_succ_of_lt (h.9.2 k r hk),
        fun k hk => Nat.lt_succ_of_lt (h.9.3 k hk), h.9.4, h.9.5⟩⟩
  have hcle := hlat.cleanup
  have hsr := cleanup_resource { a with aborted := true, cancels := a.cancels + 1 }
  obtain ⟨resource, phase, channel, traffic, release, heq⟩ :=
    cleanup_fields { a with aborted := true, cancels := a.cancels + 1 }
  unfold Attempt.cancel
  dsimp only
  rw [heq] at hcle hsr ⊢
  rcases hsr with ⟨hrpt, hsr⟩ | ⟨report, hrpt, -⟩
  · rw [hrpt]
    apply hcle.join h.reported.reports_lt (Nat.lt_succ_self _) hsr
  · rw [hrpt]
    apply hcle.report h.reported.joined_lt (Nat.lt_succ_self _)

end

end Attempt

end Morphir.Artifacts
