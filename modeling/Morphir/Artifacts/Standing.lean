import Morphir.Artifacts.Custody

/-!
# The release

The connection is obtained and may be lost, and the release of what it retains has its own
steps beside the run: each keeps the one owner of the connection.
-/

namespace Morphir.Artifacts

open List Attempt

namespace Attempt

variable {codec : Codec} {a : Attempt}

lemma Custody.connect (h : Custody codec a) (hchn : a.channel = none) (hrel : a.release = .none)
    (hsr : a.resource ≠ .releasing) :
    Custody codec { a with resource := .connected, channel := some false } := by
  have htra := h.untouched hchn
  refine ⟨nofun, fun _ => ?_, h.3, ⟨nofun, ?_, hrel⟩, h.5, h.6, h.7, ⟨h.8.1, h.8.2⟩,
    h.reported.moved _ _ _ _ _ _ (absurd · hsr) (.inl rfl)⟩
  · simp [htra]
  · simp [htra]

variable {manifest : Manifest}

lemma Custody.begun (h : Custody codec a) {release : Release} (hrel : a.release = release)
    (hno : release ≠ .none) (hdo : ∀ report, release ≠ .done report) :
    a.resource = .releasing ∧ Owned { a with resource := .releasing, release } := by
  subst hrel
  have hsr := h.owned.releasing hno hdo
  exact ⟨hsr, hsr ▸ h.owned⟩

lemma Custody.started (h : Custody codec a) (hrel : a.release = .started manifest) :
    a.resource = .releasing ∧ a.channel ≠ none ∧ .close ∉ a.traffic :=
  h.begun hrel nofun nofun

lemma Custody.waited (h : Custody codec a) {id : Nat} (hrel : a.release = .waiting manifest id) :
    a.resource = .releasing ∧ a.channel ≠ none ∧ .close ∉ a.traffic ∧
      ∃ sent, .exchange (.release manifest.generationId id) sent ∈ a.traffic :=
  h.begun hrel nofun nofun

variable {report : Cleanup}

section

variable (h : Custody codec a)

include h

lemma Custody.settled (hrel : a.release = .settled report) :
    a.resource = .releasing ∧ a.channel = some true :=
  (h.begun hrel nofun nofun).imp_right And.right

lemma Custody.not_raised : a.release ≠ .raised := fun hrel => (h.begun hrel nofun nofun).2.2

lemma Custody.settle (hsr : a.resource = .releasing)
    (hchn : a.channel ≠ none) (hno : ∀ report, a.release ≠ .done report) (nextId : Nat)
    {more : List (String × Nat × String)} (hm : ∀ g id reply, (g, id, reply) ∈ more →
      codec.released reply id = true ∧ ∃ sent, .exchange (.release g id) sent ∈ a.traffic)
    (hrpt : ∀ g, report = .released g → ∃ id reply, (g, id, reply) ∈ more) :
    Custody codec
      { a.closeChannel with
        nextId := nextId
        release := .settled report
        acknowledged := a.acknowledged ++ more } := by
  obtain ⟨channel, traffic, heq⟩ := a.closeChannel_fields
  have hcld := closeChannel_channel hchn
  have htra := closeChannel_traffic hchn
  rw [heq] at hcld htra ⊢
  subst hcld htra
  constructor
  case untouched | isOpen | ids => exact fun h => nomatch h
  case ordered => exact ordered_close h.ordered
  case owned =>
    rw [hsr]
    exact ⟨nofun, rfl⟩
  case generates => simpa [Traffic.generates] using h.generates
  case releases =>
    have hcnt := h.releases
    simp only [countP_append, countP_singleton, Traffic.releases, Release.begun]
    split at hcnt <;> simp <;> omega
  case acknowledged =>
    refine ⟨fun g id reply hmem => ?_, fun cleanup hcle g hg => ?_⟩
    · rcases mem_append.mp hmem with hmem | hmem
      · obtain ⟨hrep, sent, hsn⟩ := h.acknowledged.answered g id reply hmem
        exact ⟨hrep, sent, mem_append_left _ hsn⟩
      · obtain ⟨hrep, sent, hsn⟩ := hm g id reply hmem
        exact ⟨hrep, sent, mem_append_left _ hsn⟩
    · obtain rfl : report = cleanup := by simpa using hcle
      obtain ⟨id, reply, hmem⟩ := hrpt g hg
      exact ⟨id, reply, mem_append_right _ hmem⟩
  case reported => exact h.reported.moved _ _ _ _ _ _ (fun _ => hsr) (.inr hno)

lemma Custody.settle_failed (hsr : a.resource = .releasing) (hchn : a.channel ≠ none)
    (hno : ∀ report, a.release ≠ .done report) (nextId : Nat) (generationId : Option String) :
    Custody codec
      { a.closeChannel with
        nextId := nextId
        release := .settled (.connectionClosed generationId .releaseFailed) } := by
  have hset : Custody codec
      { a.closeChannel with
        nextId := nextId
        release := .settled (.connectionClosed generationId .releaseFailed)
        acknowledged := a.acknowledged ++ [] } :=
    h.settle hsr hchn hno nextId (by simp) nofun
  obtain ⟨channel, traffic, heq⟩ := a.closeChannel_fields
  rw [heq] at hset ⊢
  simpa only [append_nil] using hset

omit h in
lemma closeChannel_withId (a : Attempt) (id : Nat) :
    closeChannel { a with nextId := id } = { a.closeChannel with nextId := id } := by
  unfold closeChannel
  dsimp only
  split <;> rfl

lemma Custody.requestId (hrel : a.release = .started manifest) :
    a.requestId = some (a.nextId + 1) := by
  have hlim := h.ids (by simp [hrel, Release.begun])
  unfold idLimit at hlim
  unfold Attempt.requestId maxSafeInteger
  rw [if_pos]
  omega

lemma Custody.startRelease (hrel : a.release = .started manifest) :
    Custody codec (a.startRelease codec manifest) := by
  obtain ⟨hsr, hchn, hclo⟩ := h.started hrel
  unfold Attempt.startRelease
  rw [h.requestId hrel]
  dsimp only
  split
  · have hclo' : .close ∉ a.traffic ++
        [Traffic.exchange (.release manifest.generationId (a.nextId + 1)) a.isOpen] := by
      simpa using hclo
    constructor
    case untouched => exact fun hno => absurd hno hchn
    case isOpen =>
      intro hop
      refine ⟨hclo', ?_⟩
      change .lost ∉ a.traffic ++
        [Traffic.exchange (.release manifest.generationId (a.nextId + 1)) a.isOpen]
      simpa using (h.isOpen hop).2
    case ordered => exact ordered_exchange h hclo _
    case owned =>
      rw [hsr]
      exact ⟨hchn, hclo', a.isOpen, mem_append_right _ mem_cons_self⟩
    case generates => simpa [send, Traffic.generates] using h.generates
    case releases =>
      have hcnt := h.releases
      rw [hrel] at hcnt
      simpa [send, Traffic.releases, Release.begun] using hcnt
    case ids => exact absurd rfl ∘ Bool.eq_false_iff.mp
    case acknowledged => exact ⟨(h.acknowledged.traffic a.resource a.channel _).answered, by simp⟩
    case reported => exact h.reported.moved _ _ _ _ _ _ (fun _ => hsr) (.inr (by simp [hrel]))
  · rw [closeChannel_withId]
    exact h.settle_failed hsr hchn (by simp [hrel]) (a.nextId + 1) _

lemma Custody.answerRelease {id : Nat} (hrel : a.release = .waiting manifest id)
    (reply : Option String) : Custody codec (a.answerRelease codec manifest id reply) := by
  obtain ⟨hsr, hchn, -, hsn⟩ := h.waited hrel
  have hno : ∀ report, a.release ≠ .done report := by simp [hrel]
  cases reply with
  | none => exact h.settle_failed hsr hchn hno a.closeChannel.nextId _
  | some reply =>
    unfold Attempt.answerRelease
    dsimp only
    split
    case isTrue hrep =>
      apply h.settle hsr hchn hno a.closeChannel.nextId
      · intro g id' reply' hmem
        simp only [mem_singleton] at hmem
        obtain ⟨rfl, rfl, rfl⟩ := hmem
        exact ⟨hrep, hsn⟩
      · intro g hg
        obtain rfl := Cleanup.released.inj hg
        exact ⟨id, reply, mem_cons_self⟩
    case isFalse => exact h.settle_failed hsr hchn hno a.closeChannel.nextId _

lemma Custody.endRelease (hrel : a.release = .settled report) :
    Custody codec (a.endRelease report) := by
  obtain ⟨hsr, hchn⟩ := h.settled hrel
  constructor
  case untouched => exact h.untouched
  case isOpen => exact h.isOpen
  case ordered => exact h.ordered
  case owned => exact ⟨by simp [Attempt.endRelease, hchn], .inr rfl⟩
  case generates => exact h.generates
  case releases => simpa [hrel, Release.begun, Attempt.endRelease] using h.releases
  case ids => exact absurd rfl ∘ Bool.eq_false_iff.mp
  case acknowledged =>
    refine ⟨h.acknowledged.answered, fun cleanup hcle => ?_⟩
    obtain rfl : report = cleanup := by simpa [Attempt.endRelease] using hcle
    exact h.acknowledged.released report (.inl hrel)
  case reported =>
    constructor
    case waiting => simp [Attempt.endRelease]
    case reports_lt =>
      intro k report' hmem
      rcases mem_append.mp hmem with hmem | hmem
      · exact h.reported.reports_lt k report' hmem
      · obtain ⟨j, hj, heq⟩ := mem_map.mp hmem
        obtain ⟨rfl, -⟩ := Prod.mk.inj heq
        exact h.reported.joined_lt j (h.reported.waiting_sub j hj)
    case joined_lt => exact h.reported.joined_lt
    case joined =>
      intro k hk
      rcases h.reported.joined k hk with ⟨hwai, hno⟩ | ⟨done, hdo, -⟩
      · simp [Attempt.endRelease, hno, hwai, eq_comm]
      · rw [hrel] at hdo
        cases hdo
    case waiting_sub => simp [Attempt.endRelease]

lemma Custody.lose (hop : a.isOpen = true) :
    Custody codec { a with channel := some true, traffic := a.traffic ++ [.lost] } := by
  have hchn := isOpen_iff.mp hop
  obtain ⟨hclo, -⟩ := h.isOpen hchn
  have hclo' : .close ∉ a.traffic ++ [Traffic.lost] := by simpa using hclo
  constructor
  case untouched | isOpen => exact fun h => nomatch h
  case ordered =>
    apply pairwise_append.mpr
    refine ⟨h.ordered, pairwise_singleton _ _, ?_⟩
    rintro earlier - later hlat frame sent heq
    rw [mem_singleton.mp hlat] at heq
    cases heq
  case owned =>
    have howned := h.owned
    unfold Owned at howned ⊢
    dsimp only
    split at howned
    case h_1 => simp [hchn] at howned
    case h_5 =>
      refine ⟨nofun, ?_⟩
      have hrel := howned.2
      split at hrel
      · exact hclo'
      · obtain ⟨-, sent, hsn⟩ := hrel
        exact ⟨hclo', sent, mem_append_left _ hsn⟩
      · rfl
      · exact hrel
    case h_6 => exact absurd hchn howned.1
    all_goals exact ⟨nofun, hclo', howned.unreleased⟩
  case generates => simpa [Traffic.generates] using h.generates
  case releases => simpa [Traffic.releases] using h.releases
  case ids => exact h.ids
  case acknowledged => exact h.acknowledged.traffic _ _ _
  case reported => exact h.reported.moved _ _ _ _ _ _ id (.inl rfl)

end

end Attempt

end Morphir.Artifacts

/-!
## Where the run stands

Each place of the run says which resource it holds, unless the attempt was cancelled, and
what is known of its files there.
-/

namespace Morphir.Artifacts

open List

/-- The digest of each file was measured, and is the announced one. -/
def Measured (measured : List (Bytes × String)) (files : List (Artifact × Bytes)) : Prop :=
  ∀ f ∈ files, (f.2, f.1.sha256) ∈ measured

namespace Attempt

variable (codec : Codec) (a : Attempt)

structure Untouched : Prop where
  channel : a.channel = none
  release : a.release = .none
  nextId : a.nextId = 2
  reads : a.reads = []
  resource : a.resource = .unconnected ∨ a.aborted = true ∧ ∃ report, a.resource = .closed report

def Held (resource : Resource) : Prop :=
  a.resource = resource ∨
    a.aborted = true ∧ (a.resource = .releasing ∨ ∃ report, a.resource = .closed report)

def Fits : Next → Prop
  | .sessionInitialize => a.nextId = 2 ∧ a.reads = [] ∧ a.traffic.countP Traffic.generates = 0
  | .generate => a.nextId = 2 ∧ a.reads = []
  | .read p read _ =>
    read = p.next ∧ ∃ done, Reading a.reads done p ∧ a.nextId ≤ 3 + weight done + p.offset

def Checked (files : Verified) : Prop := Complete a.reads files ∧ Measured a.measured files.files

/-- What the place of the run says about its connection and its files. -/
def Stands : Prop :=
  match a.task with
  | .idle => a.Untouched
  | .connecting => a.Untouched
  | .exchanging next =>
    a.Held (.exchanging next.manifest?) ∧ a.release = .none ∧ (a.aborted = false → a.Fits next)
  | .settled next _ => a.Held (ready next.manifest?) ∧ (a.aborted = false → a.Fits next)
  | .digesting files pending =>
    a.Held (.retained files.manifest) ∧ Complete a.reads files ∧
      ∃ done, files.files = done ++ pending ∧ Measured a.measured done
  | .checked (.ok files) => a.Held (.retained files.manifest) ∧ a.Checked files
  | .checked (.error _) => True
  | .cleaning outcome (some report) =>
    a.resource = .closed report ∧
      ∀ files, outcome = .ok files →
        a.Checked files ∧ report.generation? = some files.manifest.generationId
  | .cleaning outcome none =>
    (a.resource = .releasing ∨ ∃ report, a.resource = .closed report ∧ a.release = .done report) ∧
      ∀ files, outcome = .ok files →
        a.Checked files ∧ a.release.generation? = some files.manifest.generationId
  | .finished =>
    ∃ result report, a.result = some result ∧ result.cleanup? = some report ∧
      a.resource = .closed report ∧
      ∀ files cleanup, result = .verified files cleanup →
        a.Checked files ∧ cleanup = .released files.manifest.generationId

structure Sound : Prop where
  custody : Custody codec a
  stands : a.Stands
  pending : a.task ≠ .finished → a.result = none

variable {codec : Codec} {a : Attempt}

variable {files : Verified}

lemma Checked.complete (h : a.Checked files) : Complete a.reads files := h.1

lemma Checked.measured (h : a.Checked files) :
    Measured a.measured files.files := h.2

lemma fail_sound (hcus : Custody codec a) (hres : a.result = none) (cause : Cause) :
    Sound codec (a.fail cause) := by
  have hcle := hcus.cleanup
  have hsr := a.cleanup_resource
  obtain ⟨resource, phase, channel, traffic, release, heq⟩ := a.cleanup_fields
  unfold fail
  rw [heq] at hcle hsr ⊢
  refine ⟨hcle.still _ _ _ _ _, ?_, fun _ => hres⟩
  rcases hsr with ⟨hrpt, hsr⟩ | ⟨report, hrpt, hsr⟩
  · rw [hrpt]
    exact ⟨.inl hsr, nofun⟩
  · rw [hrpt]
    exact ⟨hsr, nofun⟩

variable {next : Next}

lemma exchange_sound (hcus : Custody codec a) (hres : a.result = none)
    (hsr : a.resource = ready next.manifest?) {frame : Frame}
    (hrel : Traffic.releases (.exchange frame a.isOpen) = false)
    (hgen : Traffic.generates (.exchange frame a.isOpen) = true →
      a.traffic.countP Traffic.generates = 0) (hfi : (a.send frame).Fits next) :
    Sound codec (a.exchange next frame) := by
  have hu := hcus.owned.inUse (.inl hsr)
  have hasked := hcus.ask hu hrel hgen next.manifest?
  have heq : a.exchange next frame =
      { (a.send frame) with
        resource := .exchanging next.manifest?
        task := .exchanging next } := by
    unfold exchange
    rw [hsr]
    cases next.manifest? <;> rfl
  rw [heq]
  refine ⟨hasked.still _ _ _ _ _, ⟨.inl rfl, hu.unreleased, fun _ => ?_⟩, fun _ => hres⟩
  cases next <;> exact hfi

variable {before : List Artifact} {p : Progress}

lemma captureRead_next {read : Read} (hart : p.manifest.artifacts = before ++ p.artifact :: p.rest)
    (h : captureRead p.manifest p.artifact.id p.offset chunkLimit = some read) : read = p.next := by
  have hfn : p.manifest.artifacts.find? (fun a => a.id = p.artifact.id) = some p.artifact := by
    obtain ⟨hids, -, -⟩ := artifact_notMem hart
    rw [hart, List.find?_append, List.find?_eq_none.mpr]
    · simp
    · intro other ho
      simpa using hids other ho
  unfold captureRead at h
  rw [hfn] at h
  dsimp only at h
  split at h
  · exact (Option.some.inj h).symm
  · cases h

lemma readNext_sound (hcus : Custody codec a) (hres : a.result = none)
    (hsr : a.resource = .retained p.manifest) (hrea : Reading a.reads before p)
    (hid : a.nextId ≤ 2 + weight before + p.offset) : Sound codec (a.readNext codec p) := by
  have hlim : a.nextId + 1 ≤ idLimit := by
    have hwei := p.manifest.weight_le
    rw [hrea.artifacts, weight_append, weight_cons] at hwei
    have hoff := hrea.offset_le
    unfold idLimit
    omega
  unfold readNext
  split
  case h_1 => exact fail_sound hcus hres _
  case h_2 read hrd =>
    obtain rfl := captureRead_next hrea.artifacts hrd
    split
    case h_1 => exact fail_sound hcus hres _
    case h_2 id hreq =>
      obtain rfl : a.nextId + 1 = id := by
        unfold requestId at hreq
        split at hreq
        · exact Option.some.inj hreq
        · cases hreq
      have hnx := hcus.withId hlim
      split
      · refine exchange_sound hnx hres ?_ rfl nofun ⟨rfl, before, hrea, ?_⟩
        · exact hsr
        · change a.nextId + 1 ≤ 3 + weight before + p.offset
          omega
      · exact fail_sound hnx hres _

lemma digest_sound (hcus : Custody codec a) (hres : a.result = none)
    (hsr : a.resource = .retained files.manifest) (hcom : Complete a.reads files)
    {before pending : List (Artifact × Bytes)} (hfls : files.files = before ++ pending)
    (hmea : Measured a.measured before) : Sound codec (a.digest files pending) := by
  unfold digest
  split
  · rw [append_nil] at hfls
    refine ⟨hcus.still _ _ _ _ _, ⟨.inl hsr, hcom, ?_⟩, fun _ => hres⟩
    exact hfls ▸ hmea
  · exact ⟨hcus.still _ _ _ _ _, ⟨.inl hsr, hcom, before, hfls, hmea⟩, fun _ => hres⟩

lemma refuse_sound (hcus : Custody codec a) (hres : a.result = none)
    (failure : VerificationFailure) : Sound codec { a with task := .checked (.error failure) } :=
  ⟨hcus.still _ _ _ _ _, trivial, fun _ => hres⟩

variable {bytes : List (String × Bytes)}

section

variable (hcus : Custody codec a)

include hcus

lemma verify_sound (hres : a.result = none) {manifest : Manifest} (wanted : Bool)
    (hsr : a.resource = .retained manifest)
    (hrd : ReadUpTo a.reads manifest bytes manifest.artifacts []) :
    Sound codec (a.verify manifest bytes wanted) := by
  unfold verify
  split
  · split
    case h_1 => exact refuse_sound hcus hres _
    case h_2 files hfls =>
      obtain ⟨rfl, hcom⟩ := hrd.inventory hfls
      exact digest_sound hcus hres hsr hcom (nil_append _).symm nofun
  · exact refuse_sound hcus hres _

lemma receive_sound (hres : a.result = none) {manifest : Manifest} {rest : List Artifact}
    (wanted : Bool) (hsr : a.resource = .retained manifest)
    (hart : manifest.artifacts = before ++ rest) (hrd : ReadUpTo a.reads manifest bytes before rest)
    (hid : a.nextId ≤ 2 + weight before) :
    Sound codec (a.receive codec manifest bytes wanted rest) := by
  cases rest with
  | nil =>
    rw [append_nil] at hart
    apply verify_sound (hcus.still _ .verifying _ _ _) hres wanted hsr
    rw [hart]
    exact hrd
  | cons artifact rest => exact readNext_sound hcus hres hsr (hrd.begin hart) hid

lemma received_sound (hres : a.result = none) {chunk : Chunk} (wanted : Bool)
    (hsr : a.resource = .retained p.manifest) (hrea : Reading a.reads before p)
    (hid : a.nextId ≤ 3 + weight before + p.offset) (hacc : chunk.accepted p.next = true) :
    Sound codec (a.received codec p p.next chunk wanted) := by
  obtain ⟨hle, hgrows, hm⟩ := hrea.received_chunk hacc
  have hcus' : Custody codec { a with reads := a.reads ++ [(p.next, chunk)] } :=
    hcus.still _ _ _ _ _
  unfold received
  split
  case isTrue hlt =>
    refine readNext_sound hcus' hres ?_ hm ?_
    · exact hsr
    · change a.nextId ≤ 2 + weight before + chunk.nextOffset
      omega
  case isFalse hge =>
    have hchu : chunksOf (a.reads ++ [(p.next, chunk)]) p.next.artifact ≠ [] := by
      rw [chunksOf_snoc_self]
      simp
    have hdo := hm.complete hchu (Nat.le_of_not_lt hge)
    apply receive_sound hcus' hres wanted hsr _ hdo
    · change a.nextId ≤ 2 + weight (before ++ [p.artifact])
      have hoff := hrea.offset_le
      rw [weight_append, weight_cons]
      omega
    · rw [hrea.artifacts, append_assoc]
      rfl

lemma Untouched.sound (h : a.Untouched) (hres : a.result = none) (phase : Phase) :
    Sound codec { a with phase := phase, task := .connecting } :=
  ⟨hcus.still _ _ _ _ _, ⟨h.1, h.2, h.3, h.4, h.5⟩, fun _ => hres⟩

omit hcus in
lemma run_sound (h : Sound codec a) (hid : a.task = .idle) (wanted : Bool) :
    Sound codec (a.run wanted) := by
  have hres := h.pending (by simp [hid])
  have hstd := h.stands
  unfold Stands at hstd
  rw [hid] at hstd
  unfold run
  split
  · exact h
  split
  · exact hstd.sound h.custody hres _
  · exact fail_sound h.custody hres _

lemma connected_sound (hres : a.result = none) (h : a.Untouched) (wanted : Bool) :
    Sound codec (a.connected wanted) := by
  have hsr : a.resource ≠ .releasing := by
    rcases h.resource with hsr | ⟨-, report, hsr⟩ <;> simp [hsr]
  have hcon := hcus.connect h.channel h.release hsr
  unfold connected
  dsimp only
  split
  · refine exchange_sound (hcon.still _ .initializing _ _ _) hres ?_ rfl nofun
      ⟨h.nextId, h.reads, ?_⟩
    · rfl
    · simp [send, hcus.untouched h.channel, Traffic.generates]
  · exact fail_sound hcon hres _

end

lemma aborted_of_current {wanted : Bool} (h : a.current wanted = true) : a.aborted = false := by
  cases habo : a.aborted with
  | false => rfl
  | true => simp [current, habo] at h

lemma Held.of_current {resource : Resource} (h : a.Held resource) {wanted : Bool}
    (hcur : a.current wanted = true) : a.resource = resource := by
  rcases h with h | ⟨habo, -⟩
  · exact h
  · rw [aborted_of_current hcur] at habo
    cases habo

lemma settle_sound (h : Sound codec a) (htk : a.task = .exchanging next) (reply : Option String) :
    Sound codec (a.settle next reply) := by
  have hres := h.pending (by simp [htk])
  have hstd := h.stands
  unfold Stands at hstd
  rw [htk] at hstd
  obtain ⟨hhl, hrel, hfi⟩ := hstd
  have hfi' (resource : Resource) (task : Task) :
      a.aborted = false → Fits { a with resource := resource, task := task } next := by
    intro habo
    have hnow := hfi habo
    cases next <;> exact hnow
  rcases hhl with hsr | ⟨habo, hgo⟩
  · have hhl := h.custody.hold (h.custody.owned.inUse (.inr hsr)) next.manifest?
    have heq : a.settle next reply =
        { a with resource := ready next.manifest?, task := .settled next reply } := by
      unfold settle
      rw [hsr]
      cases next.manifest? <;> rfl
    rw [heq]
    exact ⟨hhl.still _ _ _ _ _, ⟨.inl rfl, hfi' _ _⟩, fun _ => hres⟩
  · have heq : a.settle next reply = { a with task := .settled next reply } := by
      unfold settle
      rcases hgo with hsr | ⟨report, hsr⟩ <;> rw [hsr]
    rw [heq]
    exact ⟨h.custody.still _ _ _ _ _, ⟨.inr ⟨habo, hgo⟩, hfi' _ _⟩, fun _ => hres⟩

lemma retain_sound (hcus : Custody codec a) (manifest : Manifest) :
    Custody codec (a.retain manifest) ∧ (a.retain manifest).aborted = a.aborted ∧
      (a.retain manifest).result = a.result ∧ (a.retain manifest).reads = a.reads ∧
      (a.retain manifest).nextId = a.nextId ∧
      (a.Held .connected → (a.retain manifest).Held (.retained manifest)) := by
  unfold retain
  split
  case h_1 hsr =>
    have hcon : a.resource = ready none := hsr
    have hu := hcus.owned.inUse (.inl hcon)
    exact ⟨hcus.hold hu (some manifest), rfl, rfl, rfl, rfl, fun _ => .inl rfl⟩
  case h_2 hsr =>
    refine ⟨hcus, rfl, rfl, rfl, rfl, fun hhl => ?_⟩
    rcases hhl with hcon | hgo
    · exact absurd hcon hsr
    · exact .inr hgo

lemma generated_sound (hcus : Custody codec a) (hres : a.result = none) (hhl : a.Held .connected)
    (hfi : a.aborted = false → a.Fits .generate) (wanted : Bool) (generated : Generated) :
    Sound codec (a.generated codec wanted generated) := by
  cases generated with
  | ready manifest =>
    obtain ⟨hret, habo, hres', hrs, hid, hhl'⟩ := retain_sound hcus manifest
    rw [hres] at hres'
    unfold generated
    dsimp only
    split
    case isTrue hcur =>
      have hsr := (hhl' hhl).of_current hcur
      obtain ⟨hid', hrs'⟩ := hfi (habo ▸ aborted_of_current hcur)
      rw [hrs'] at hrs
      rw [hid'] at hid
      refine receive_sound (hret.still _ .receiving _ _ _) hres' wanted hsr
        (nil_append _).symm ?_ ?_
      · constructor
        case whole => simp
        case untouched => simp [hrs]
        case generation => simp [OfGeneration, hrs]
      · exact hid.le
    case isFalse => exact fail_sound hret hres' _
  | failed diagnostics =>
    unfold generated
    dsimp only
    split
    case isTrue hcur =>
      have hsr := hhl.of_current hcur
      have hcon : a.resource = ready none := hsr
      have hcld := hcus.close (hcus.owned.inUse (.inl hcon))
        (show ∀ g, Cleanup.notRetained ≠ .released g from nofun)
      refine ⟨hcld.still _ _ _ _ _, ?_, fun h => absurd rfl h⟩
      exact ⟨_, .notRetained, rfl, rfl, rfl, nofun⟩
    case isFalse => exact fail_sound hcus hres _

lemma goOn_sound (h : Sound codec a) {reply : Option String} (htk : a.task = .settled next reply)
    (wanted : Bool) : Sound codec (a.goOn codec wanted next reply) := by
  have hres := h.pending (by simp [htk])
  have hstd := h.stands
  unfold Stands at hstd
  rw [htk] at hstd
  obtain ⟨hhl, hfi⟩ := hstd
  cases reply with
  | none => exact fail_sound h.custody hres _
  | some reply =>
  cases next with
  | sessionInitialize =>
    unfold goOn
    dsimp only
    split
    case h_1 => exact fail_sound h.custody hres _
    case h_2 initialized _ =>
      split
      case isTrue hcur =>
        have hsr := hhl.of_current hcur
        obtain ⟨hid, hrs, hcnt⟩ := hfi (aborted_of_current hcur)
        split
        · refine exchange_sound (h.custody.still _ .generating _ _ _) hres ?_ rfl
            (fun _ => hcnt) ⟨hid, hrs⟩
          exact hsr
        · exact fail_sound h.custody hres _
      case isFalse => exact fail_sound h.custody hres _
  | generate =>
    unfold goOn
    dsimp only
    split
    case h_1 => exact fail_sound h.custody hres _
    case h_2 generated _ => exact generated_sound h.custody hres hhl hfi wanted generated
  | read p read id =>
    unfold goOn
    dsimp only
    split
    case isTrue hcur =>
      have hsr := hhl.of_current hcur
      obtain ⟨rfl, before, hrea, hid⟩ := hfi (aborted_of_current hcur)
      split
      case h_1 => exact fail_sound h.custody hres _
      case h_2 chunk _ =>
        split
        case isTrue hacc => exact received_sound h.custody hres wanted hsr hrea hid hacc
        case isFalse => exact fail_sound h.custody hres _
    case isFalse => exact fail_sound h.custody hres _

lemma digested_sound (h : Sound codec a) {file : Artifact × Bytes} {rest : List (Artifact × Bytes)}
    (htk : a.task = .digesting files (file :: rest)) (measured : Option String) (wanted : Bool) :
    Sound codec (a.digested files file rest measured wanted) := by
  have hres := h.pending (by simp [htk])
  have hstd := h.stands
  unfold Stands at hstd
  rw [htk] at hstd
  obtain ⟨hhl, hcom, before, hfls, hmea⟩ := hstd
  unfold digested
  split
  case isFalse => exact refuse_sound h.custody hres _
  case isTrue hcur =>
    have hsr := hhl.of_current hcur
    split
    case h_1 => exact refuse_sound h.custody hres _
    case h_2 sum =>
      split
      case isFalse => exact refuse_sound h.custody hres _
      case isTrue hsum =>
        have hfls' : files.files = (before ++ [file]) ++ rest := by
          rw [hfls, append_assoc]
          rfl
        apply digest_sound (h.custody.still _ _ _ _ (a.measured ++ [(file.2, sum)])) hres
          hsr hcom hfls'
        · intro f hf
          rcases mem_append.mp hf with hf | hf
          · exact mem_append_left _ (hmea f hf)
          · obtain rfl := mem_singleton.mp hf
            rw [← hsum]
            exact mem_append_right _ mem_cons_self

end Attempt

end Morphir.Artifacts
