import Morphir.Artifacts.Standing

/-!
# Transfers

What holds of an attempt in every order of what happens to it: files are handed out only
when they were read whole, verified and released, and the connection has one owner
throughout.
-/

namespace Morphir.Artifacts

open Attempt

namespace Attempt

variable {codec : Codec} {a : Attempt}

variable {report : Cleanup}

lemma Custody.cleaned (h : Custody codec a) (hsr : a.resource = .closed report) :
    a.channel ≠ some false ∧
      (a.release = .none ∧ (∀ g, report ≠ .released g) ∨ a.release = .done report) := by
  have howned := h.owned
  unfold Owned at howned
  rwa [hsr] at howned

lemma goOnChecked_sound (h : Sound codec a) {outcome : Except VerificationFailure Verified}
    (htk : a.task = .checked outcome) (wanted : Bool) :
    Sound codec (a.goOnChecked wanted outcome) := by
  have hres := h.pending (by simp [htk])
  have hstd := h.stands
  unfold Stands at hstd
  rw [htk] at hstd
  cases outcome with
  | error failure => exact fail_sound h.custody hres _
  | ok files =>
    obtain ⟨hhl, hckd⟩ := hstd
    unfold goOnChecked
    dsimp only
    split
    case isFalse => exact fail_sound h.custody hres _
    case isTrue hcur =>
      have hret := hhl.of_current hcur
      have hcle := h.custody.cleanup
      have hsr := a.cleanup_resource
      have hgen := cleanup_retained hret
      obtain ⟨resource, phase, channel, traffic, release, heq⟩ := a.cleanup_fields
      rw [heq] at hcle hsr hgen ⊢
      refine ⟨hcle.still _ _ _ _ _, ?_, fun _ => hres⟩
      rcases hsr with ⟨hrpt, hsr⟩ | ⟨report, hrpt, hsr⟩
      · rw [hrpt] at hgen ⊢
        rcases hgen with ⟨-, hrel⟩ | hrpt
        · refine ⟨.inl hsr, fun files' hfls => ?_⟩
          cases hfls
          refine ⟨⟨hckd.1, hckd.2⟩, ?_⟩
          rw [hrel]
          rfl
        · cases hrpt
      · rw [hrpt] at hgen ⊢
        rcases hgen with ⟨hrpt, -⟩ | hrpt
        · cases hrpt
        · cases hrpt
          refine ⟨hsr, fun files' hfls => ?_⟩
          cases hfls
          exact ⟨⟨hckd.1, hckd.2⟩, rfl⟩

lemma finish_sound (hcus : Custody codec a) (hres : a.result = none)
    (hsr : a.resource = .closed report) {outcome : Except Cause Verified}
    (hout : ∀ files, outcome = .ok files →
      a.Checked files ∧ report.generation? = some files.manifest.generationId) (wanted : Bool) :
    Sound codec (a.finish wanted report outcome) := by
  have hcon {result : Result} (hrpt : result.cleanup? = some report)
      (hver : ∀ files cleanup, result = .verified files cleanup →
        a.Checked files ∧ cleanup = .released files.manifest.generationId) :
      Sound codec (a.conclude result) := by
    refine ⟨hcus.still _ _ _ _ _, ?_, fun h => absurd rfl h⟩
    refine ⟨result, report, rfl, hrpt, hsr, fun files cleanup heq => ?_⟩
    obtain ⟨hckd, hcle⟩ := hver files cleanup heq
    exact ⟨⟨hckd.1, hckd.2⟩, hcle⟩
  cases outcome with
  | error cause =>
    unfold finish
    dsimp only
    split
    · exact hcon rfl nofun
    · exact hcon rfl nofun
  | ok files =>
    obtain ⟨hckd, hgen⟩ := hout files rfl
    unfold finish
    dsimp only
    split
    case isFalse => exact fail_sound hcus hres _
    case isTrue =>
      split
      case h_2 => exact fail_sound hcus hres _
      case h_1 g =>
        obtain rfl : g = files.manifest.generationId := Option.some.inj hgen
        apply hcon rfl
        intro files' cleanup heq
        obtain ⟨rfl, rfl⟩ := Result.verified.inj heq
        exact ⟨hckd, rfl⟩

lemma continue_sound (h : Sound codec a) (wanted : Bool) :
    Sound codec (a.continue codec wanted) := by
  have hstd := h.stands
  unfold Stands at hstd
  unfold Attempt.continue
  split
  case h_1 next reply htk => exact goOn_sound h htk wanted
  case h_2 outcome htk => exact goOnChecked_sound h htk wanted
  case h_3 outcome report htk =>
    rw [htk] at hstd
    exact finish_sound h.custody (h.pending (by simp [htk])) hstd.1 hstd.2 wanted
  case h_4 outcome htk =>
    rw [htk] at hstd
    obtain ⟨hcle, hout⟩ := hstd
    split
    case h_1 report hrel =>
      rw [hrel] at hout
      refine finish_sound h.custody (h.pending (by simp [htk])) ?_ hout wanted
      rcases hcle with hsr | ⟨report', hsr, hdo⟩
      · have howned := h.custody.owned
        unfold Owned at howned
        rw [hsr, hrel] at howned
        exact howned.2.elim
      · rw [hrel] at hdo
        obtain rfl := Release.done.inj hdo
        exact hsr
    case h_2 hrel => exact absurd hrel h.custody.not_raised
    case h_3 => exact h
  case h_5 => exact h

lemma cancel_fields (a : Attempt) :
    ∃ resource phase channel traffic release cancels waiting joined reports,
      a.cancel =
        { a with
          aborted := true
          resource := resource
          phase := phase
          channel := channel
          traffic := traffic
          release := release
          cancels := cancels
          waiting := waiting
          joined := joined
          reports := reports } := by
  obtain ⟨resource, phase, channel, traffic, release, heq⟩ :=
    cleanup_fields { a with aborted := true, cancels := a.cancels + 1 }
  unfold cancel
  dsimp only
  rw [heq]
  split <;> exact ⟨_, _, _, _, _, _, _, _, _, rfl⟩

lemma cancel_cleanup (a : Attempt) :
    let cancelled := { a with aborted := true, cancels := a.cancels + 1 }
    a.cancel.resource = cancelled.cleanup.1.resource ∧
      a.cancel.release = cancelled.cleanup.1.release ∧
      a.cancel.channel = cancelled.cleanup.1.channel := by
  unfold cancel
  dsimp only
  split <;> exact ⟨rfl, rfl, rfl⟩

lemma cancel_gone (h : a.resource = .releasing ∨ ∃ report, a.resource = .closed report) :
    a.cancel.resource = a.resource ∧ a.cancel.release = a.release ∧
      a.cancel.channel = a.channel := by
  obtain ⟨hsr, hrel, hchn⟩ := a.cancel_cleanup
  have hcle : (cleanup { a with aborted := true, cancels := a.cancels + 1 }).1 =
      { a with aborted := true, cancels := a.cancels + 1 } := by
    rcases h with h | ⟨report, h⟩
    · rw [cleanup_releasing (a := { a with aborted := true, cancels := a.cancels + 1 }) h]
    · rw [cleanup_closed (a := { a with aborted := true, cancels := a.cancels + 1 }) h]
  rw [hcle] at hsr hrel hchn
  exact ⟨hsr, hrel, hchn⟩

lemma cancel_aborted (a : Attempt) : a.cancel.aborted = true := by
  obtain ⟨_, _, _, _, _, _, _, _, _, heq⟩ := a.cancel_fields
  rw [heq]

lemma cancel_held (a : Attempt) (resource : Resource) : a.cancel.Held resource := by
  refine .inr ⟨a.cancel_aborted, ?_⟩
  rw [a.cancel_cleanup.1]
  rcases cleanup_resource { a with aborted := true, cancels := a.cancels + 1 } with
    ⟨-, h⟩ | ⟨report, -, h⟩
  · exact .inl h
  · exact .inr ⟨report, h⟩

lemma Untouched.cancel (h : a.Untouched) : a.cancel.Untouched := by
  have hfs : a.cancel.channel = a.channel ∧ a.cancel.release = a.release ∧
      ∃ report, a.cancel.resource = .closed report := by
    rcases h.resource with hsr | ⟨-, report, hsr⟩
    · obtain ⟨hres, hrel, hchn⟩ := a.cancel_cleanup
      have hcle := cleanup_unconnected
        (a := { a with aborted := true, cancels := a.cancels + 1 }) hsr
      rw [hcle] at hres hrel hchn
      exact ⟨hchn, hrel, _, hres⟩
    · obtain ⟨hres, hrel, hchn⟩ := cancel_gone (.inr ⟨report, hsr⟩)
      exact ⟨hchn, hrel, report, hres.trans hsr⟩
  obtain ⟨hchn, hrel, hsr⟩ := hfs
  refine ⟨hchn.trans h.channel, hrel.trans h.release, ?_, ?_, .inr ⟨a.cancel_aborted, hsr⟩⟩
  all_goals
    obtain ⟨_, _, _, _, _, _, _, _, _, heq⟩ := a.cancel_fields
    rw [heq]
  · exact h.nextId
  · exact h.reads

lemma Checked.cancel {files : Verified} (h : a.Checked files) : a.cancel.Checked files := by
  obtain ⟨_, _, _, _, _, _, _, _, _, heq⟩ := a.cancel_fields
  rw [heq]
  exact ⟨h.1, h.2⟩

section

variable (h : Sound codec a)

include h

lemma cancel_sound : Sound codec a.cancel := by
  have hstd := h.stands
  have htk : a.cancel.task = a.task ∧ a.cancel.result = a.result ∧
      a.cancel.reads = a.reads ∧ a.cancel.measured = a.measured := by
    obtain ⟨_, _, _, _, _, _, _, _, _, heq⟩ := a.cancel_fields
    rw [heq]
    exact ⟨rfl, rfl, rfl, rfl⟩
  obtain ⟨htk, hres, hrs, hmea⟩ := htk
  refine ⟨h.custody.cancel, ?_, ?_⟩
  swap
  · rw [htk, hres]
    exact h.pending
  unfold Stands at hstd ⊢
  rw [htk]
  split at hstd
  case h_1 | h_2 => exact hstd.cancel
  case h_3 next hexc =>
    obtain ⟨hhl, hrel, hfi⟩ := hstd
    refine ⟨a.cancel_held _, ?_, fun h => absurd (a.cancel_aborted.symm.trans h) nofun⟩
    rcases hhl with hsr | ⟨-, hgo⟩
    · rw [a.cancel_cleanup.2.1]
      exact (cleanup_exchanging (a := { a with aborted := true, cancels := a.cancels + 1 })
        hsr).trans hrel
    · exact (cancel_gone hgo).2.1.trans hrel
  case h_4 => exact ⟨a.cancel_held _, fun h => absurd (a.cancel_aborted.symm.trans h) nofun⟩
  case h_5 =>
    rw [hrs, hmea]
    exact ⟨a.cancel_held _, hstd.2⟩
  case h_6 => exact ⟨a.cancel_held _, hstd.2.cancel⟩
  case h_7 => trivial
  case h_8 report _ =>
    obtain ⟨hsr, hfls⟩ := hstd
    refine ⟨(cancel_gone (.inr ⟨report, hsr⟩)).1.trans hsr, fun files heq => ?_⟩
    obtain ⟨hckd, hgen⟩ := hfls files heq
    exact ⟨hckd.cancel, hgen⟩
  case h_9 =>
    obtain ⟨hcleaning, hfls⟩ := hstd
    have hgo : a.resource = .releasing ∨ ∃ report, a.resource = .closed report := by
      rcases hcleaning with hsr | ⟨report, hsr, -⟩
      · exact .inl hsr
      · exact .inr ⟨report, hsr⟩
    obtain ⟨hsr, hrel, -⟩ := cancel_gone hgo
    rw [hsr, hrel]
    refine ⟨hcleaning, fun files heq => ?_⟩
    obtain ⟨hckd, hgen⟩ := hfls files heq
    exact ⟨hckd.cancel, hgen⟩
  case h_10 =>
    obtain ⟨result, report, hso, hrpt, hsr, hfls⟩ := hstd
    have hsm := (cancel_gone (.inr ⟨report, hsr⟩)).1
    refine ⟨result, report, hres.trans hso, hrpt, hsm.trans hsr, ?_⟩
    intro files cleanup heq
    obtain ⟨hckd, hcleanup⟩ := hfls files cleanup heq
    exact ⟨hckd.cancel, hcleanup⟩

lemma Sound.release_step {b : Attempt} (hcus : Custody codec b)
    (hrun : b.task = a.task ∧ b.result = a.result ∧ b.reads = a.reads ∧
      b.measured = a.measured ∧ b.aborted = a.aborted)
    (hreleasing : a.resource = .releasing)
    (hgen : b.release.generation? = a.release.generation?)
    (hsr : b.resource = .releasing ∨
      ∃ report, b.resource = .closed report ∧ b.release = .done report) :
    Sound codec b := by
  obtain ⟨htk, hres, hrs, hmea, habo⟩ := hrun
  have hgo : b.resource = .releasing ∨ ∃ report, b.resource = .closed report := by
    rcases hsr with hsr | ⟨report, hsr, -⟩
    · exact .inl hsr
    · exact .inr ⟨report, hsr⟩
  have hcan {retained : Option Manifest} (hhl : a.Held (ready retained)) :
      a.aborted = true := by
    rcases hhl with hrd | ⟨habo, -⟩
    · rw [hreleasing] at hrd
      cases retained <;> cases hrd
    · exact habo
  have hhl (retained : Option Manifest) (hhl : a.Held (ready retained)) :
      b.Held (ready retained) := .inr ⟨habo.trans (hcan hhl), hgo⟩
  have hckd {files : Verified} (hckd : a.Checked files) : b.Checked files :=
    ⟨hrs ▸ hckd.complete, hmea ▸ hckd.measured⟩
  have hstd := h.stands
  refine ⟨hcus, ?_, htk ▸ hres ▸ h.pending⟩
  unfold Stands at hstd ⊢
  rw [htk]
  have hunt : ¬ a.Untouched := by
    intro hunt
    rcases hunt.resource with hnot | ⟨-, _, hnot⟩ <;> simp [hreleasing] at hnot
  split at hstd
  case h_1 | h_2 => exact absurd hstd hunt
  case h_3 => exact absurd hreleasing (by
    intro
    have howned := h.custody.owned
    unfold Owned at howned
    rw [hreleasing, hstd.2.1] at howned
    exact howned.2)
  case h_4 =>
    refine ⟨hhl _ hstd.1, fun hnot => ?_⟩
    rw [habo, hcan hstd.1] at hnot
    cases hnot
  case h_5 files pending _ =>
    obtain ⟨hfls, hcom, before, happ, hpre⟩ := hstd
    exact ⟨hhl (some files.manifest) hfls, hrs ▸ hcom, before, happ, hmea ▸ hpre⟩
  case h_6 files _ => exact ⟨hhl (some files.manifest) hstd.1, hckd hstd.2⟩
  case h_7 => trivial
  case h_8 => simp [hreleasing] at hstd
  case h_9 =>
    refine ⟨hsr, fun files heq => ?_⟩
    rw [hgen]
    obtain ⟨hfls, hreleased⟩ := hstd.2 files heq
    exact ⟨hckd hfls, hreleased⟩
  case h_10 =>
    obtain ⟨_, _, -, -, hcld, -⟩ := hstd
    rw [hreleasing] at hcld
    cases hcld

lemma startRelease_sound {manifest : Manifest} (hrel : a.release = .started manifest) :
    Sound codec (a.startRelease codec manifest) := by
  have hsr := (h.custody.started hrel).1
  have hgen : a.release.generation? = some manifest.generationId :=
    congrArg Release.generation? hrel
  have hcus := h.custody.startRelease hrel
  obtain ⟨_, _, heq⟩ := a.closeChannel_fields
  unfold startRelease at hcus ⊢
  rw [h.custody.requestId hrel] at hcus ⊢
  dsimp only at hcus ⊢
  rw [closeChannel_withId, heq] at hcus ⊢
  cases henc : codec.encodesRelease manifest.generationId (a.nextId + 1) with
  | true | false =>
    rw [henc] at hcus
    apply h.release_step hcus ⟨rfl, rfl, rfl, rfl, rfl⟩ hsr _ (.inl hsr)
    exact hgen.symm

lemma answerRelease_sound {manifest : Manifest} {id : Nat}
    (hrelease : a.release = .waiting manifest id) (reply : Option String) :
    Sound codec (a.answerRelease codec manifest id reply) := by
  have hsr := (h.custody.waited hrelease).1
  have hgen : a.release.generation? = some manifest.generationId :=
    congrArg Release.generation? hrelease
  have hcus := h.custody.answerRelease hrelease reply
  obtain ⟨_, _, heq⟩ := a.closeChannel_fields
  unfold answerRelease at hcus ⊢
  rw [heq] at hcus ⊢
  cases reply with
  | none =>
    apply h.release_step hcus ⟨rfl, rfl, rfl, rfl, rfl⟩ hsr _ (.inl hsr)
    exact hgen.symm
  | some reply =>
    dsimp only at hcus ⊢
    cases hreleased : codec.released reply id with
    | true | false =>
      rw [hreleased] at hcus
      apply h.release_step hcus ⟨rfl, rfl, rfl, rfl, rfl⟩ hsr _ (.inl hsr)
      exact hgen.symm

lemma endRelease_sound (hrel : a.release = .settled report) :
    Sound codec (a.endRelease report) := by
  have hsr := (h.custody.settled hrel).1
  apply h.release_step (h.custody.endRelease hrel) ⟨rfl, rfl, rfl, rfl, rfl⟩ hsr
  · rw [hrel]
    rfl
  · exact .inr ⟨report, rfl, rfl⟩

lemma lose_sound (hop : a.isOpen = true) :
    Sound codec { a with channel := some true, traffic := a.traffic ++ [.lost] } := by
  refine ⟨h.custody.lose hop, ?_, h.pending⟩
  have hstd := h.stands
  unfold Stands at hstd ⊢
  have hunt : ¬ a.Untouched := by
    intro hunt
    rw [isOpen_iff, hunt.channel] at hop
    cases hop
  have hfi {next : Next} (hfi : a.aborted = false → a.Fits next) :
      a.aborted = false →
        Fits { a with channel := some true, traffic := a.traffic ++ [.lost] } next := by
    intro habo
    have hnow := hfi habo
    cases next with
    | sessionInitialize =>
      refine ⟨hnow.1, hnow.2.1, ?_⟩
      simpa [Traffic.generates] using hnow.2.2
    | generate => exact hnow
    | read p read id => exact hnow
  split at hstd
  case h_1 | h_2 => exact absurd hstd hunt
  case h_3 htk =>
    rw [htk]
    exact ⟨hstd.1, hstd.2.1, hfi hstd.2.2⟩
  case h_4 htk =>
    rw [htk]
    exact ⟨hstd.1, hfi hstd.2⟩
  all_goals
    have htk := ‹a.task = _›
    rw [htk]
    exact hstd

lemma step_sound (event : Event) : Sound codec (a.step codec event) := by
  have hstd := h.stands
  unfold Stands at hstd
  unfold step
  cases event with
  | run wanted =>
    dsimp only
    split
    · exact run_sound h ‹_› wanted
    · exact h
  | connect connected wanted =>
    dsimp only
    split
    case h_1 htk =>
      rw [htk] at hstd
      have hres := h.pending (by simp [htk])
      split
      · exact connected_sound h.custody hres hstd wanted
      · exact fail_sound h.custody hres _
    case h_2 => exact h
  | reply reply =>
    dsimp only
    split
    · exact settle_sound h ‹_› reply
    · exact h
  | goOn wanted => exact continue_sound h wanted
  | digest measured wanted =>
    dsimp only
    split
    · exact digested_sound h ‹_› measured wanted
    · exact h
  | cancel => exact cancel_sound h
  | release =>
    dsimp only
    split
    · exact startRelease_sound h ‹_›
    · exact h
  | releaseReply reply =>
    dsimp only
    split
    · exact answerRelease_sound h ‹_› reply
    · exact h
  | releaseEnd =>
    dsimp only
    split
    · exact endRelease_sound h ‹_›
    · exact h
  | lost =>
    dsimp only
    split
    · exact lose_sound h ‹_›
    · exact h

end

lemma start_sound (codec : Codec) : Sound codec {} := by
  have hcus : Custody codec {} :=
    ⟨fun _ => rfl, nofun, .nil, ⟨rfl, rfl⟩, Nat.zero_le _, Nat.zero_le _, by decide,
      ⟨nofun, nofun⟩, ⟨nofun, nofun, nofun, nofun, nofun⟩⟩
  exact ⟨hcus, ⟨rfl, rfl, rfl, rfl, .inl rfl⟩, fun _ => rfl⟩

end Attempt

/-- What holds when files are handed out with a report of the clean-up. -/
structure HandedOut (codec : Codec) (a : Attempt) (files : Verified) (cleanup : Cleanup) :
    Prop where
  /-- Every artifact was read to its length by contiguous reads of the generation. -/
  complete : Complete a.reads files
  measured : Measured a.measured files.files
  cleanup : cleanup = .released files.manifest.generationId
  released : ∃ id reply sent, (files.manifest.generationId, id, reply) ∈ a.acknowledged ∧
    codec.released reply id = true ∧
    .exchange (.release files.manifest.generationId id) sent ∈ a.traffic

structure Transfers (codec : Codec) (a : Attempt) : Prop where
  generates_once : a.traffic.countP Traffic.generates ≤ 1
  releases_once : a.traffic.countP Traffic.releases ≤ 1
  releases_alone : ∀ generationId id sent,
    .exchange (.release generationId id) sent ∈ a.traffic → ∀ next, a.task ≠ .exchanging next
  /-- Nothing is asked for after a close, and nothing is sent after a loss. -/
  closes : a.traffic.Pairwise Traffic.Before
  closed : a.result.isSome → a.channel ≠ some false
  /-- The run ends with a report, and every call of `cancel` that came during the release
  gets the same. -/
  reported : ∀ result, a.result = some result →
    ∃ report, result.cleanup? = some report ∧
      ∀ k ∈ a.joined, ∀ other, (k, other) ∈ a.reports ↔ other = report
  handedOut : ∀ files cleanup, a.result = some (.verified files cleanup) →
    HandedOut codec a files cleanup

namespace Attempt

variable {codec : Codec} {a : Attempt}

section

variable (h : Sound codec a)

include h

lemma Sound.finished {result : Result} (hres : a.result = some result) : a.task = .finished := by
  by_contra hpd
  rw [h.pending hpd] at hres
  cases hres

lemma Sound.concluded {result : Result} (hres : a.result = some result) :
    ∃ report, result.cleanup? = some report ∧ a.resource = .closed report ∧
      ∀ files cleanup, result = .verified files cleanup →
        a.Checked files ∧ cleanup = .released files.manifest.generationId := by
  have hstd := h.stands
  unfold Stands at hstd
  rw [h.finished hres] at hstd
  obtain ⟨result', report, hres', hrpt, hsr, hfls⟩ := hstd
  obtain rfl : result' = result := Option.some.inj (hres'.symm.trans hres)
  exact ⟨report, hrpt, hsr, hfls⟩

lemma Sound.release_none {next : Next} (htk : a.task = .exchanging next) : a.release = .none := by
  have hstd := h.stands
  unfold Stands at hstd
  rw [htk] at hstd
  exact hstd.2.1

lemma Sound.handedOut {files : Verified} {cleanup : Cleanup}
    (hres : a.result = some (.verified files cleanup)) : HandedOut codec a files cleanup := by
  obtain ⟨report, hrpt, hsr, hfls⟩ := h.concluded hres
  obtain ⟨hckd, hcle⟩ := hfls files cleanup rfl
  obtain rfl : cleanup = report := Option.some.inj hrpt
  refine ⟨hckd.complete, hckd.measured, hcle, ?_⟩
  rcases (h.custody.cleaned hsr).2 with ⟨-, hnot⟩ | hdo
  · exact absurd hcle (hnot _)
  · obtain ⟨id, reply, hmem⟩ := h.custody.acknowledged.released cleanup (.inr hdo) _ hcle
    obtain ⟨hrep, sent, hsn⟩ := h.custody.acknowledged.answered _ id reply hmem
    exact ⟨id, reply, sent, hmem, hrep, hsn⟩

lemma Sound.transfers : Transfers codec a := by
  constructor
  case generates_once => exact h.custody.generates
  case releases_once =>
    have hcnt := h.custody.releases
    split at hcnt <;> omega
  case releases_alone =>
    intro generationId id sent hmem next htk
    have hcnt := h.custody.releases
    rw [h.release_none htk] at hcnt
    have hpos : 0 < a.traffic.countP Traffic.releases := List.countP_pos_iff.mpr ⟨_, hmem, rfl⟩
    exact absurd hcnt (Nat.not_le.mpr hpos)
  case closes => exact h.custody.ordered
  case closed =>
    intro hso
    obtain ⟨result, hres⟩ := Option.isSome_iff_exists.mp hso
    obtain ⟨report, -, hsr, -⟩ := h.concluded hres
    exact (h.custody.cleaned hsr).1
  case reported =>
    intro result hres
    obtain ⟨report, hrpt, hsr, -⟩ := h.concluded hres
    refine ⟨report, hrpt, fun k hk => ?_⟩
    rcases h.custody.reported.joined k hk with ⟨hwai, -⟩ | ⟨done, hdo, hrep⟩
    · have hrel := h.custody.reported.waiting ⟨k, hwai⟩
      rw [hsr] at hrel
      cases hrel
    · rcases (h.custody.cleaned hsr).2 with ⟨hno, -⟩ | hdo'
      · rw [hno] at hdo
        cases hdo
      · rw [hdo] at hdo'
        obtain rfl := Release.done.inj hdo'
        exact hrep
  case handedOut => exact fun files cleanup hres => h.handedOut hres

end

section

variable (a : Attempt)

@[simp] lemma closeChannel_result : a.closeChannel.result = a.result := by
  obtain ⟨_, _, heq⟩ := a.closeChannel_fields
  rw [heq]

@[simp] lemma cleanup_result : a.cleanup.1.result = a.result := by
  obtain ⟨_, _, _, _, _, heq⟩ := a.cleanup_fields
  rw [heq]

@[simp] lemma fail_result (cause : Cause) : (a.fail cause).result = a.result := a.cleanup_result

@[simp] lemma exchange_result (next : Next) (frame : Frame) :
    (a.exchange next frame).result = a.result := by
  unfold exchange
  split <;> rfl

@[simp] lemma readNext_result (p : Progress) : (a.readNext codec p).result = a.result := by
  unfold readNext
  split
  · simp
  split
  · simp
  split <;> simp

@[simp] lemma digest_result (files : Verified) (pending : List (Artifact × Bytes)) :
    (a.digest files pending).result = a.result := by
  unfold digest
  split <;> rfl

@[simp] lemma verify_result (manifest : Manifest) (bytes : List (String × Bytes)) (wanted : Bool) :
    (a.verify manifest bytes wanted).result = a.result := by
  unfold verify
  split
  · split <;> simp
  · rfl

@[simp] lemma receive_result (manifest : Manifest) (bytes : List (String × Bytes)) (wanted : Bool)
    (rest : List Artifact) : (a.receive codec manifest bytes wanted rest).result = a.result := by
  cases rest <;> simp [receive]

@[simp] lemma received_result (p : Progress) (read : Read) (chunk : Chunk) (wanted : Bool) :
    (a.received codec p read chunk wanted).result = a.result := by
  unfold received
  split <;> simp

@[simp] lemma retain_result (manifest : Manifest) : (a.retain manifest).result = a.result := by
  unfold retain
  split <;> rfl

end

section Verified

variable {files : Verified} {cleanup : Cleanup}

variable {wanted : Bool}

lemma generated_result {generated : Generated}
    (h : (a.generated codec wanted generated).result = some (.verified files cleanup)) :
    a.result = some (.verified files cleanup) := by
  revert h
  unfold Attempt.generated
  split
  · dsimp only
    split <;> simp
  · split <;> simp

lemma goOn_result {next : Next} {reply : Option String}
    (h : (a.goOn codec wanted next reply).result = some (.verified files cleanup)) :
    a.result = some (.verified files cleanup) := by
  revert h
  unfold goOn
  split
  case h_1 => simp
  case h_2 =>
    split
    · simp
    split
    · split <;> simp
    · simp
  case h_3 =>
    split
    · simp
    · exact generated_result
  case h_4 =>
    split
    · split
      · simp
      · split <;> simp
    · simp

lemma goOnChecked_result {outcome : Except VerificationFailure Verified} :
    (a.goOnChecked wanted outcome).result = a.result := by
  unfold goOnChecked
  split
  · simp
  · split <;> simp

lemma finish_result {report : Cleanup} {outcome : Except Cause Verified}
    (h : (a.finish wanted report outcome).result = some (.verified files cleanup)) :
    a.result = some (.verified files cleanup) ∨ a.current wanted = true := by
  by_cases hcur : a.current wanted = true
  · exact .inr hcur
  · revert h
    unfold finish
    split
    · rw [if_neg hcur, fail_result]
      exact .inl
    · rw [if_neg hcur]
      exact nofun

lemma continue_result (h : (a.continue codec wanted).result = some (.verified files cleanup)) :
    a.result = some (.verified files cleanup) ∨ a.current wanted = true := by
  unfold Attempt.continue at h
  split at h
  case h_1 => exact .inl (goOn_result h)
  case h_2 => exact .inl (goOnChecked_result.symm.trans h)
  case h_3 => exact finish_result h
  case h_4 =>
    split at h
    · exact finish_result h
    · cases h
    · exact .inl h
  case h_5 => exact .inl h

lemma step_result {event : Event}
    (h : (a.step codec event).result = some (.verified files cleanup)) :
    a.result = some (.verified files cleanup) ∨
      event = .goOn true ∧ a.aborted = false := by
  cases event with
  | goOn wanted =>
    rcases continue_result h with hsm | hcur
    · exact .inl hsm
    · right
      have habo := aborted_of_current hcur
      simp only [current, habo] at hcur
      exact ⟨congrArg Event.goOn hcur, habo⟩
  | cancel =>
    obtain ⟨_, _, _, _, _, _, _, _, _, heq⟩ := a.cancel_fields
    left
    simpa only [step, heq] using h
  | run wanted =>
    left
    revert h
    unfold step run
    dsimp only
    split
    · split
      · exact id
      · split <;> simp
    · exact id
  | connect connected wanted =>
    left
    revert h
    unfold Attempt.step Attempt.connected
    dsimp only
    split
    · split
      · split <;> simp
      · simp
    · exact id
  | reply reply =>
    left
    revert h
    unfold step settle
    dsimp only
    split
    · split <;> exact id
    · exact id
  | digest measured wanted =>
    left
    revert h
    unfold step digested
    dsimp only
    split
    · split
      · split
        · exact id
        · split <;> simp
      · exact id
    · exact id
  | release =>
    left
    revert h
    unfold step startRelease
    dsimp only
    split
    · split
      · exact id
      · split <;> simp [send]
    · exact id
  | releaseReply reply =>
    left
    revert h
    unfold step answerRelease
    dsimp only
    split
    · split
      · simp
      · split <;> simp
    · exact id
  | releaseEnd | lost =>
    left
    revert h
    unfold step
    dsimp only
    split <;> exact id

end Verified

end Attempt

structure TransfersSafely (codec : Codec)
    (entries : List (Recording.Entry Attempt Event Unit)) : Prop where
  transfers : ∀ e ∈ entries, Transfers codec e.before ∧ Transfers codec e.after
  /-- Files are handed out when the run goes on, while the attempt is not cancelled and the
  host wants it. -/
  current : ∀ e ∈ entries, ∀ files cleanup,
    e.after.result = some (.verified files cleanup) →
      e.before.result = some (.verified files cleanup) ∨
        e.action = .goOn true ∧ e.before.aborted = false

/-- In every order of what happens to it, an attempt hands out only files that it read,
verified and released, and its connection has one owner. -/
theorem attempt_transfers_safely (codec : Codec) (events : List Event) :
    TransfersSafely codec (history codec events) := by
  have hent {e : Recording.Entry Attempt Event Unit} (he : e ∈ history codec events) :
      e.after = e.before.step codec e.action ∧ Sound codec e.before := by
    obtain ⟨heq, hsnd⟩ := Recording.entry_of_mem (P := Sound codec)
      (fun a event h => step_sound h event) (start_sound codec) he
    exact ⟨congrArg Recording.Entry.after heq, hsnd⟩
  constructor
  case transfers =>
    intro e he
    obtain ⟨haft, hsnd⟩ := hent he
    refine ⟨hsnd.transfers, ?_⟩
    rw [haft]
    exact (step_sound hsnd e.action).transfers
  case current =>
    intro e he files cleanup hres
    obtain ⟨haft, -⟩ := hent he
    rw [haft] at hres
    exact step_result hres

example :
    let manifest : Manifest :=
      ⟨"generation", [⟨"file", 1, "digest"⟩], by decide, by decide, by decide⟩
    let codec : Codec :=
      { initialized := fun _ => some true
        generated := fun _ => some (.ready manifest)
        read := fun _ _ => some ⟨"generation", "file", 0, 1, [7]⟩
        released := fun _ _ => true
        encodesRead := fun _ _ => true
        encodesRelease := fun _ _ => true }
    let events : List Event :=
      [.run true, .connect true true, .reply "", .goOn true, .reply "", .goOn true, .reply "",
        .goOn true, .digest "digest" true, .goOn true, .release, .releaseReply "", .releaseEnd,
        .goOn true]
    match (Recording.final (fun a event => ((), step codec a event)) {} events).result with
    | some (.verified files _) => files.files.map Prod.snd = [[7]]
    | _ => False := rfl

end Morphir.Artifacts
