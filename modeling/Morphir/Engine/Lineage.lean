import Morphir.Execution.Values

/-!
# Rewrites of an IR unit

A component that rewrites a distribution says where each of its nodes went.  The
lineage must account for every node of both distributions, and the metadata of the
unit follows it.
-/

namespace Morphir.Engine.Data

open Fallible List Prod
open Morphir.Execution (Ion Symbol)

/-- `Invalid`, or what a function that the rewrite was handed raised. -/
inductive Failure
  | invalid (code detail : String)
  | raised (error : String)

structure Lineage where
  retained : List (String × String)
  derived : List (String × List String)
  removed : List String

structure Rewrite (File : Type) where
  distribution : File
  lineage : Option Lineage

structure NodeMetadata (X : Type) where
  nodeId : String
  data : Ion X

structure IRUnit (File X : Type) where
  id : String
  distribution : File
  metadata : List (NodeMetadata X)
  annotations : List Symbol
  provenance : List (Ion X)

structure MetadataPolicy (X : Type) where
  propagate : String → List (NodeMetadata X) → Except Failure (Option (Ion X))

namespace MetadataPolicy

variable {X : Type}

def retain : MetadataPolicy X where
  propagate id origins := do
    refuse (origins.isEmpty = false)
      (.invalid "data.metadata_policy_required" ("Derived metadata for " ++ id))
    pure none

def copySingleOrigin : MetadataPolicy X where
  propagate id origins := do
    refuse (1 < origins.length) (.invalid "data.metadata_merge_required" id)
    pure (origins.head?.map NodeMetadata.data)

def noDerived : MetadataPolicy X where
  propagate _ _ := .ok none

end MetadataPolicy

/-- The nodes that a lineage has spoken for so far, each once: `sources` of the old
distribution and `targets` of the new one. -/
structure Claimed (before after : List String) where
  sources : List String
  targets : List String
  sources_nodup : sources.Nodup
  targets_nodup : targets.Nodup
  sources_known : sources ⊆ before
  targets_known : targets ⊆ after

namespace Claimed

variable {before after : List String}

def empty : Claimed before after where
  sources := []
  targets := []
  sources_nodup := nodup_nil
  targets_nodup := nodup_nil
  sources_known := nil_subset _
  targets_known := nil_subset _

lemma append_nodup {ids : List String} {id : String} (h : ids.Nodup) (hn : id ∉ ids) :
    (ids ++ [id]).Nodup := by
  refine nodup_append.mpr ⟨h, nodup_singleton id, ?_⟩
  intro a ha b hb hab
  rw [mem_singleton.mp hb] at hab
  exact hn (hab ▸ ha)

lemma append_known {ids known : List String} {id : String} (h : ids ⊆ known) (hk : id ∈ known) :
    ids ++ [id] ⊆ known := by
  intro a ha
  rcases mem_append.mp ha with ha | ha
  · exact h ha
  · exact mem_singleton.mp ha ▸ hk

def source (claimed : Claimed before after) (id : String) (hk : id ∈ before)
    (hn : id ∉ claimed.sources) : Claimed before after :=
  { claimed with
    sources := claimed.sources ++ [id]
    sources_nodup := append_nodup claimed.sources_nodup hn
    sources_known := append_known claimed.sources_known hk }

def target (claimed : Claimed before after) (id : String) (hk : id ∈ after)
    (hn : id ∉ claimed.targets) : Claimed before after :=
  { claimed with
    targets := claimed.targets ++ [id]
    targets_nodup := append_nodup claimed.targets_nodup hn
    targets_known := append_known claimed.targets_known hk }

end Claimed

section Check

variable {before after : List String}

def claimRetained : Claimed before after → List (String × String) →
    Except Failure (Claimed before after)
  | claimed, [] => .ok claimed
  | claimed, (source, target) :: pairs =>
    if h : source ∈ before ∧ target ∈ after ∧ source ∉ claimed.sources ∧
        target ∉ claimed.targets then
      claimRetained ((claimed.source source h.1 h.2.2.1).target target h.2.1 h.2.2.2) pairs
    else .error (.invalid "data.invalid_lineage" (source ++ " -> " ++ target))

def claimRemoved : Claimed before after → List String → Except Failure (Claimed before after)
  | claimed, [] => .ok claimed
  | claimed, source :: rest =>
    if h : source ∈ before ∧ source ∉ claimed.sources then
      claimRemoved (claimed.source source h.1 h.2) rest
    else .error (.invalid "data.invalid_lineage" source)

def checkOrigins : List String → List String → Except Failure Unit
  | _, [] => .ok ()
  | seen, origin :: origins => do
    refuse (origin ∈ seen) (.invalid "data.invalid_lineage" ("Duplicate origin " ++ origin))
    checkOrigins (seen ++ [origin]) origins

def claimDerived : Claimed before after → List (String × List String) →
    Except Failure (Claimed before after)
  | claimed, [] => .ok claimed
  | claimed, (target, origins) :: rest =>
    if h : target ∈ after ∧ target ∉ claimed.targets ∧ origins ≠ [] ∧
        ∀ id ∈ origins, id ∈ before then do
      checkOrigins [] origins
      claimDerived (claimed.target target h.1 h.2.1) rest
    else .error (.invalid "data.invalid_lineage" target)

/-- The checks of a lineage against the nodes of the two distributions. -/
def checkLineage (before after : List String) (lineage : Lineage) (component : String) :
    Except Failure (Claimed before after) := do
  let claimed ← claimRetained .empty lineage.retained
  let claimed ← claimRemoved claimed lineage.removed
  let claimed ← claimDerived claimed lineage.derived
  refuse (claimed.sources.length ≠ before.length ∨ claimed.targets.length ≠ after.length)
    (.invalid "data.incomplete_lineage" component)
  pure claimed

variable {claimed claimed' : Claimed before after}

lemma claimRetained_ok {pairs : List (String × String)}
    (h : claimRetained claimed pairs = .ok claimed') :
    claimed'.sources = claimed.sources ++ pairs.map fst ∧
      claimed'.targets = claimed.targets ++ pairs.map snd := by
  induction pairs generalizing claimed with
  | nil =>
    obtain rfl : claimed = claimed' := Except.ok.inj h
    simp
  | cons pair pairs ih =>
    rw [claimRetained] at h
    split at h
    · obtain ⟨hs, ht⟩ := ih h
      rw [hs, ht]
      simp [Claimed.source, Claimed.target]
    · cases h

lemma claimRemoved_ok {ids : List String} (h : claimRemoved claimed ids = .ok claimed') :
    claimed'.sources = claimed.sources ++ ids ∧ claimed'.targets = claimed.targets := by
  induction ids generalizing claimed with
  | nil =>
    obtain rfl : claimed = claimed' := Except.ok.inj h
    simp
  | cons id ids ih =>
    rw [claimRemoved] at h
    split at h
    · obtain ⟨hs, ht⟩ := ih h
      rw [hs, ht]
      simp [Claimed.source]
    · cases h

lemma claimDerived_ok {nodes : List (String × List String)}
    (h : claimDerived claimed nodes = .ok claimed') :
    claimed'.sources = claimed.sources ∧
      claimed'.targets = claimed.targets ++ nodes.map fst := by
  induction nodes generalizing claimed with
  | nil =>
    obtain rfl : claimed = claimed' := Except.ok.inj h
    simp
  | cons node nodes ih =>
    rw [claimDerived] at h
    split at h
    · obtain ⟨_, _, h⟩ := bind_ok h
      obtain ⟨hs, ht⟩ := ih h
      rw [hs, ht]
      simp [Claimed.target]
    · cases h

lemma checkLineage_ok {lineage : Lineage} {component : String}
    (h : checkLineage before after lineage component = .ok claimed) :
    (lineage.retained.map fst ++ lineage.removed).Perm before ∧
      (lineage.retained.map snd ++ lineage.derived.map fst).Perm after ∧
      (lineage.retained.map snd ++ lineage.derived.map fst).Nodup := by
  obtain ⟨kept, hk, h⟩ := bind_ok h
  obtain ⟨gone, hgo, h⟩ := bind_ok h
  obtain ⟨all, hall, h⟩ := bind_ok h
  obtain ⟨_, hlen, h⟩ := bind_ok h
  have hlen := refuse_ok hlen
  have hsou : all.sources = lineage.retained.map fst ++ lineage.removed := by
    rw [(claimDerived_ok hall).1, (claimRemoved_ok hgo).1, (claimRetained_ok hk).1]
    rfl
  have htar : all.targets = lineage.retained.map snd ++ lineage.derived.map fst := by
    rw [(claimDerived_ok hall).2, (claimRemoved_ok hgo).2, (claimRetained_ok hk).2]
    rfl
  -- distinct nodes of a list that are as many as the list has are all of them
  rw [← hsou, ← htar]
  refine ⟨?_, ?_, all.targets_nodup⟩
  · apply (all.sources_nodup.subperm all.sources_known).perm_of_length_le
    omega
  · apply (all.targets_nodup.subperm all.targets_known).perm_of_length_le
    omega

end Check

section Metadata

variable {X : Type}

/-- The loop that checks the metadata of the old unit behind the nodes seen. -/
def checkIdentities (before : List String) : List String → List (NodeMetadata X) →
    Except Failure Unit
  | _, [] => .ok ()
  | seen, entry :: entries => do
    refuse (entry.nodeId ∉ before ∨ entry.nodeId ∈ seen)
      (.invalid "data.metadata_identity" entry.nodeId)
    checkIdentities before (seen ++ [entry.nodeId]) entries

def Lineage.target? (lineage : Lineage) (id : String) : Option String :=
  (lineage.retained.find? fun p => p.1 == id).map Prod.snd

def carriedMetadata (lineage : Lineage) (metadata : List (NodeMetadata X)) :
    List (NodeMetadata X) :=
  metadata.filterMap fun entry =>
    (lineage.target? entry.nodeId).map fun target => ⟨target, entry.data⟩

def derivedMetadata (policy : MetadataPolicy X) (metadata : List (NodeMetadata X)) :
    List (String × List String) → Except Failure (List (NodeMetadata X))
  | [] => .ok []
  | (target, origins) :: rest => do
    let data ← policy.propagate target (metadata.filter fun m => origins.contains m.nodeId)
    let entries ← derivedMetadata policy metadata rest
    pure ((data.map fun data => ⟨target, data⟩).toList ++ entries)

variable {before : List String} {lineage : Lineage}

variable {metadata : List (NodeMetadata X)}

lemma checkIdentities_ok {seen : List String} {u : Unit}
    (h : checkIdentities before seen metadata = .ok u) :
    (metadata.map NodeMetadata.nodeId).Nodup ∧
      ∀ entry ∈ metadata, entry.nodeId ∈ before ∧ entry.nodeId ∉ seen := by
  induction metadata generalizing seen with
  | nil => exact ⟨nodup_nil, fun _ h => absurd h not_mem_nil⟩
  | cons entry entries ih =>
    obtain ⟨_, hent, h⟩ := bind_ok h
    have hent := refuse_ok hent
    obtain ⟨hn, hr⟩ := ih h
    constructor
    · rw [map_cons, nodup_cons]
      refine ⟨?_, hn⟩
      rw [mem_map]
      rintro ⟨other, ho, heq⟩
      exact (hr other ho).2 (by simp [heq])
    · intro other ho
      rcases mem_cons.mp ho with rfl | ho
      · grind
      · grind

lemma target?_mem {id target : String} (h : lineage.target? id = some target) :
    (id, target) ∈ lineage.retained := by
  obtain ⟨p, hp, rfl⟩ := Option.map_eq_some_iff.mp h
  have hid : p.1 = id := by simpa using List.find?_some hp
  exact hid ▸ mem_of_find?_eq_some hp

lemma target?_of_mem {id target : String} (h : (id, target) ∈ lineage.retained) :
    ∃ target, lineage.target? id = some target := by
  cases hf : lineage.target? id with
  | some target => exact ⟨target, rfl⟩
  | none =>
    have := List.find?_eq_none.mp (Option.map_eq_none_iff.mp hf) _ h
    simp at this

lemma carriedMetadata_ids (metadata : List (NodeMetadata X)) :
    (carriedMetadata lineage metadata).map NodeMetadata.nodeId =
      (metadata.map NodeMetadata.nodeId).filterMap lineage.target? := by
  rw [carriedMetadata, map_filterMap, filterMap_map]
  congr 1
  funext entry
  cases h : lineage.target? entry.nodeId <;> simp [h]

lemma carriedMetadata_known {id : String}
    (h : id ∈ (carriedMetadata lineage metadata).map NodeMetadata.nodeId) :
    id ∈ lineage.retained.map snd := by
  rw [carriedMetadata_ids] at h
  obtain ⟨source, _, hsrc⟩ := mem_filterMap.mp h
  exact mem_map.mpr ⟨_, target?_mem hsrc, rfl⟩

lemma carriedMetadata_nodup (hm : (metadata.map NodeMetadata.nodeId).Nodup)
    (ht : (lineage.retained.map snd).Nodup) :
    ((carriedMetadata lineage metadata).map NodeMetadata.nodeId).Nodup := by
  rw [carriedMetadata_ids]
  apply hm.filterMap
  intro a b target ha hb
  have hpr := inj_on_of_nodup_map ht (target?_mem ha) (target?_mem hb) rfl
  exact congrArg fst hpr

lemma derivedMetadata_sublist {policy : MetadataPolicy X} {nodes : List (String × List String)}
    {entries : List (NodeMetadata X)} (h : derivedMetadata policy metadata nodes = .ok entries) :
    (entries.map NodeMetadata.nodeId).Sublist (nodes.map fst) := by
  induction nodes generalizing entries with
  | nil =>
    obtain rfl : [] = entries := Except.ok.inj h
    exact .refl _
  | cons node nodes ih =>
    obtain ⟨data, _, h⟩ := bind_ok h
    obtain ⟨rest, hr, h⟩ := bind_ok h
    cases h
    have hsub := ih hr
    cases data with
    | none => exact hsub.trans (sublist_cons_self _ _)
    | some data => exact hsub.cons_cons node.1

end Metadata

section Rewrite

variable {File X : Type}

def removedRecord (entry : NodeMetadata X) : Ion X :=
  .record [("node_id", .string entry.nodeId), ("data", entry.data)]

def idsIon (ids : List String) : Ion X := .list [] (ids.map .string)

def provenance (metadata : List (NodeMetadata X)) (lineage : Lineage)
    (component policyName : String) : Ion X :=
  Ion.withAnnotation (Ion.record [("component", .string component),
    ("metadata_policy", .string policyName),
    ("retained", .list [] (lineage.retained.map fun p =>
      .record [("source", .string p.1), ("target", .string p.2)])),
    ("derived", .list [] (lineage.derived.map fun p =>
      .record [("target", .string p.1), ("origins", idsIon p.2)])),
    ("removed", idsIon lineage.removed),
    ("removed_metadata", .list []
      ((metadata.filter fun m => lineage.removed.contains m.nodeId).map removedRecord))
  ]) "morphir_rewrite"

/-- `apply_rewrite`, where `nodes` are the identities of the nodes of a distribution. -/
def applyRewrite [BEq File] (nodes : String → File → Except Failure (List String))
    (unit : IRUnit File X) (rewrite : Rewrite File) (component policyName : String)
    (policy : MetadataPolicy X) : Except Failure (IRUnit File X) := do
  let before ← nodes unit.id unit.distribution
  let after ← nodes unit.id rewrite.distribution
  match rewrite.lineage with
  | none =>
    if rewrite.distribution == unit.distribution then pure unit
    else throw (.invalid "data.lineage_required" component)
  | some lineage => do
    let _ ← checkLineage before after lineage component
    checkIdentities before [] unit.metadata
    let derived ← derivedMetadata policy unit.metadata lineage.derived
    pure { unit with
      distribution := rewrite.distribution
      metadata := carriedMetadata lineage unit.metadata ++ derived
      provenance := unit.provenance ++ [provenance unit.metadata lineage component policyName] }

def recordField (name : String) : Ion X → Option (Ion X)
  | .struct _ fields => (fields.find? fun p => p.1 == some name).map Prod.snd
  | _ => none

lemma provenance_removed (metadata : List (NodeMetadata X)) (lineage : Lineage)
    (component policyName : String) :
    recordField "removed_metadata" (provenance metadata lineage component policyName) =
      some (.list []
        ((metadata.filter fun m => lineage.removed.contains m.nodeId).map removedRecord)) := by
  simp [provenance, Ion.record, Ion.withAnnotation, Ion.annotated, recordField]

/-- The last provenance record of a unit has an entry under `removed_metadata`. -/
def IRUnit.RecordsRemoved (unit : IRUnit File X) (entry : NodeMetadata X) : Prop :=
  ∃ record items, unit.provenance.getLast? = some record ∧
    recordField "removed_metadata" record = some (.list [] items) ∧ removedRecord entry ∈ items

variable {lineage : Lineage}

lemma recordsRemoved {unit : IRUnit File X} {earlier : List (Ion X)}
    {metadata : List (NodeMetadata X)}
    (hp : unit.provenance = earlier ++ [provenance metadata lineage component policyName])
    {entry : NodeMetadata X} (hm : entry ∈ metadata) (hr : entry.nodeId ∈ lineage.removed) :
    unit.RecordsRemoved entry := by
  have hl : unit.provenance.getLast? =
      some (provenance metadata lineage component policyName) := by
    rw [hp, List.getLast?_concat]
  refine ⟨_, _, hl, provenance_removed metadata lineage component policyName, ?_⟩
  refine mem_map.mpr ⟨entry, mem_filter.mpr ⟨hm, ?_⟩, rfl⟩
  exact contains_iff_mem.mpr hr

variable [BEq File] {nodes : String → File → Except Failure (List String)}
  {unit result : IRUnit File X} {rewrite : Rewrite File} {component policyName : String}
  {policy : MetadataPolicy X}

lemma applyRewrite_ok (hl : rewrite.lineage = some lineage)
    (h : applyRewrite nodes unit rewrite component policyName policy = .ok result) :
    ∃ before after claimed derived, nodes unit.id rewrite.distribution = .ok after ∧
      checkLineage before after lineage component = .ok claimed ∧
      checkIdentities before [] unit.metadata = .ok () ∧
      derivedMetadata policy unit.metadata lineage.derived = .ok derived ∧
      result.metadata = carriedMetadata lineage unit.metadata ++ derived ∧
      result.provenance =
        unit.provenance ++ [provenance unit.metadata lineage component policyName] := by
  obtain ⟨before, _, h⟩ := bind_ok h
  obtain ⟨after, haft, h⟩ := bind_ok h
  rw [hl] at h
  obtain ⟨claimed, hcla, h⟩ := bind_ok h
  obtain ⟨_, hide, h⟩ := bind_ok h
  obtain ⟨derived, hder, h⟩ := bind_ok h
  cases h
  exact ⟨before, after, claimed, derived, haft, hcla, hide, hder, rfl, rfl⟩

lemma applyRewrite_none (hl : rewrite.lineage = none)
    (h : applyRewrite nodes unit rewrite component policyName policy = .ok result) :
    result = unit := by
  obtain ⟨before, _, h⟩ := bind_ok h
  obtain ⟨after, _, h⟩ := bind_ok h
  rw [hl] at h
  dsimp only at h
  split at h
  · exact (Except.ok.inj h).symm
  · cases h

omit [BEq File] in
lemma followed_nodup {derived : List (NodeMetadata X)}
    (htar : (lineage.retained.map snd ++ lineage.derived.map fst).Nodup)
    (hm : (unit.metadata.map NodeMetadata.nodeId).Nodup)
    (hd : (derived.map NodeMetadata.nodeId).Sublist (lineage.derived.map fst)) :
    ((carriedMetadata lineage unit.metadata ++ derived).map NodeMetadata.nodeId).Nodup := by
  obtain ⟨hret, hder, hdis⟩ := nodup_append.mp htar
  rw [map_append]
  refine nodup_append.mpr ⟨carriedMetadata_nodup hm hret, hder.sublist hd, ?_⟩
  intro a ha b hb
  exact hdis a (carriedMetadata_known ha) b (hd.subset hb)

/-- Without a lineage the unit stays as it is.  With one, the nodes of the new metadata are
distinct nodes of the new distribution, and an entry of the old metadata is at the retained
target of its node or in the record of what was removed. -/
theorem applyRewrite_metadata
    (h : applyRewrite nodes unit rewrite component policyName policy = .ok result) :
    (rewrite.lineage = none → result = unit) ∧
    ∀ lineage, rewrite.lineage = some lineage → (result.metadata.map NodeMetadata.nodeId).Nodup ∧
      (∃ after, nodes unit.id rewrite.distribution = .ok after ∧
        ∀ entry ∈ result.metadata, entry.nodeId ∈ after) ∧
      ∀ entry ∈ unit.metadata, (∃ target, (entry.nodeId, target) ∈ lineage.retained ∧
          ⟨target, entry.data⟩ ∈ result.metadata) ∨
        (entry.nodeId ∈ lineage.removed ∧ result.RecordsRemoved entry) := by
  refine ⟨fun hl => applyRewrite_none hl h, ?_⟩
  intro lineage hl
  obtain ⟨before, after, claimed, derived, haft, hcla, hide, hder, hmeta,
    hpro⟩ := applyRewrite_ok hl h
  obtain ⟨hsou, htar, hdi⟩ := checkLineage_ok hcla
  obtain ⟨hnd, hknown⟩ := checkIdentities_ok hide
  have hsub := derivedMetadata_sublist hder
  rw [hmeta]
  refine ⟨?_, ⟨after, haft, ?_⟩, ?_⟩
  · exact followed_nodup hdi hnd hsub
  · intro entry hent
    apply htar.subset
    rcases mem_append.mp hent with hent | hent
    · exact mem_append_left _ (carriedMetadata_known (mem_map_of_mem hent))
    · exact mem_append_right _ (hsub.subset (mem_map_of_mem hent))
  · intro entry hent
    have hsrc := hsou.mem_iff.mpr (hknown entry hent).1
    rcases mem_append.mp hsrc with hsrc | hsrc
    · left
      obtain ⟨⟨_, kept⟩, hpr, rfl⟩ := mem_map.mp hsrc
      obtain ⟨target, htgt⟩ := target?_of_mem hpr
      refine ⟨target, target?_mem htgt, mem_append_left _ ?_⟩
      exact mem_filterMap.mpr ⟨entry, hent, by rw [htgt]; rfl⟩
    · exact .inr ⟨hsrc, recordsRemoved hpro hent hsrc⟩

/-- One node is retained, one is removed and one is derived from it. -/
theorem applyRewrite_metadata_replaced :
    let lineage : Lineage := ⟨[("kept", "kept")], [("new", ["gone"])], ["gone"]⟩
    let unit : IRUnit (List String) Unit :=
      ⟨"unit", ["gone", "kept"], [⟨"gone", .string "a"⟩, ⟨"kept", .string "b"⟩], [], []⟩
    ∃ result, applyRewrite (fun _ file => .ok file) unit ⟨["kept", "new"], some lineage⟩ "component"
      "copy-single-origin" .copySingleOrigin = .ok result ∧
      (result.metadata.map NodeMetadata.nodeId).Nodup ∧
      ∀ entry ∈ unit.metadata, (∃ target, (entry.nodeId, target) ∈ lineage.retained ∧
          ⟨target, entry.data⟩ ∈ result.metadata) ∨
        (entry.nodeId ∈ lineage.removed ∧ result.RecordsRemoved entry) := by
  intro lineage unit
  have hrun : applyRewrite (fun _ file => .ok file) unit ⟨["kept", "new"], some lineage⟩
      "component" "copy-single-origin" .copySingleOrigin = .ok
      { unit with
        distribution := ["kept", "new"]
        metadata := [⟨"kept", .string "b"⟩, ⟨"new", .string "a"⟩]
        provenance := [provenance unit.metadata lineage "component" "copy-single-origin"] } := rfl
  have hmeta := (applyRewrite_metadata hrun).2 lineage rfl
  exact ⟨_, hrun, hmeta.1, hmeta.2.2⟩

end Rewrite

end Morphir.Engine.Data
