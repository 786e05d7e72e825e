import Morphir.Library.Ledger
import Morphir.Metadata.ContextMerges

/-!
# Orders of imports

A list of references is resolved in every order with the same bindings.
-/

namespace Morphir.Metadata

open Fallible Ledger
open Morphir.Execution (Ion)

variable {X : Type}

variable (host : Capabilities X)

lemma framed_importReference {resolve : Ion X → String → List String →
      List String → Except MetadataError (Context × List String)}
    (h : ∀ value base active, Framed 256 fun seen => resolve value base seen active)
    (base : String) (active : List String) (resource : String) :
    Framed 256 (importReference host resolve base active resource) := by
  refine .after fun document => ?_
  exact .enter fun context => h context _ _

variable {items references references' : List (Ion X)}

lemma framed_importItems (h : ∀ resource, Framed 256 (reference resource)) (imports : Context)
    (trailing : Option (Ion X)) : Framed 256 (importItems reference items imports trailing) := by
  induction items generalizing imports trailing with
  | nil => exact framed_pure (imports, trailing)
  | cons item items ih =>
    simp only [importItems]
    split
    · refine .after fun resource => ?_
      exact .bind (h resource) fun context => .after fun imports => ih imports none
    · exact ih imports _
    · exact framed_error _

lemma framed_resolveContext (levels : Nat) (value : Ion X) (inherited : Context) (base : String)
    (active : List String) :
    Framed 256 fun seen => resolveContext host levels value inherited base seen active := by
  induction levels generalizing value inherited base active with
  | zero => exact .after fun _ => framed_error _
  | succ levels ih =>
    have href := framed_importReference host
      (fun value base active => ih value .empty base active) base active
    refine .after fun _ => ?_
    split
    · exact .after fun output => framed_pure output
    · refine .after fun resource => ?_
      exact .bind (href resource) fun imported => .after fun output => framed_pure output
    · refine .after fun _ => ?_
      refine .bind (g := fun imported seen => inherited.bindImports imported.1 >>=
        fun output => applyTrailing imported.2 output >>= fun output => pure (output, seen))
        (framed_importItems href _ _) fun imported => ?_
      exact .after fun output => .after fun output => framed_pure output
    · exact framed_error _

def importItem (reference : String → List String → Except MetadataError (Context × List String))
    (item : Ion X) (seen : List String) : Except MetadataError (Context × List String) := do
  let resource ← text item "@context"
  reference resource seen

variable {reference : String → List String → Except MetadataError (Context × List String)}

lemma framed_importItem (h : ∀ resource, Framed 256 (reference resource)) (item : Ion X) :
    Framed 256 (importItem reference item) :=
  .after fun resource => h resource

lemma importItems_cons {item : Ion X} (h : isText item = true) (items : List (Ion X))
    (imports : Context) (seen : List String) :
    importItems reference (item :: items) imports none seen = (do
      let (context, seen) ← importItem reference item seen
      let imports ← imports.mergeImport context
      importItems reference items imports none seen) := by
  cases item with
  | scalar notes value =>
    cases value with
    | string content =>
      cases notes with
      | nil => rfl
      | cons note notes => rfl
    | _ => cases h
  | _ => cases h

variable {imports : Context}

lemma importItems_append {rest : List (Ion X)} (h : ∀ item ∈ items, isText item = true)
    {seen : List String} {result : (Context × Option (Ion X)) × List String} :
    importItems reference (items ++ rest) imports none seen = .ok result ↔
      ∃ cs middle merged, collect (importItem reference) items seen = .ok (cs, middle) ∧
        mergeImports cs imports = .ok merged ∧
          importItems reference rest merged none middle = .ok result := by
  induction items generalizing imports seen with
  | nil =>
    constructor
    · exact fun hr => ⟨[], seen, imports, rfl, rfl, hr⟩
    · rintro ⟨_, _, _, ⟨⟩, ⟨⟩, hr⟩
      exact hr
  | cons item items ih =>
    obtain ⟨hi, hits⟩ := List.forall_mem_cons.mp h
    rw [List.cons_append, importItems_cons hi]
    constructor
    · intro h
      obtain ⟨⟨context, first⟩, hfst, h⟩ := bind_ok h
      obtain ⟨merged, hmg, h⟩ := bind_ok h
      obtain ⟨cs, middle, all, hcol, hall, hr⟩ := (ih hits).mp h
      refine ⟨context :: cs, middle, all,
        collect_cons_ok.mpr ⟨context, first, cs, rfl, hfst, hcol⟩, ?_, hr⟩
      rw [mergeImports, hmg, bind_eq, hall]
    · rintro ⟨_, middle, all, hcol, hall, hr⟩
      obtain ⟨context, first, cs, rfl, hfst, hcol⟩ := collect_cons_ok.mp hcol
      obtain ⟨merged, hmg, hall⟩ := bind_ok hall
      rw [hfst, bind_eq]
      dsimp only
      rw [hmg]
      exact (ih hits).mpr ⟨cs, middle, all, hcol, hall, hr⟩

/-- What is imported for an array, in one order of the references and in another. -/
def ItemsSame (a b : (Context × Option (Ion X)) × List String) : Prop :=
  a.1.1.Same b.1.1 ∧ a.1.2 = b.1.2 ∧ a.2.Perm b.2

variable {trailing : Option (Ion X)}

lemma importItems_trailing (h : ∀ item ∈ trailing, isText item = false) {imports' : Context}
    (hsm : imports.Same imports') {seen seen' : List String} (hse : seen.Perm seen') :
    Follows ItemsSame (importItems reference trailing.toList imports none seen)
      (importItems reference trailing.toList imports' none seen') := by
  cases trailing with
  | none => exact follows_ok ⟨hsm, rfl, hse⟩
  | some item =>
    have hi := h item rfl
    cases item with
    | struct notes entries => exact follows_ok ⟨hsm, rfl, hse⟩
    | scalar notes value =>
      cases value with
      | string content => cases hi
      | _ => exact follows_error
    | _ => exact follows_error

lemma importItems_perm (href : ∀ resource, Framed 256 (reference resource))
    (hpm : references.Perm references') (ht : ∀ item ∈ references, isText item = true)
    (htra : ∀ item ∈ trailing, isText item = false) (seen : List String) :
    Follows ItemsSame
      (importItems reference (references ++ trailing.toList) .empty none seen)
      (importItems reference (references' ++ trailing.toList) .empty none seen) := by
  intro result h
  have ht' : ∀ item ∈ references', isText item = true := fun item hi => ht item (hpm.mem_iff.mpr hi)
  obtain ⟨cs, middle, merged, hcol, hmg, hr⟩ := (importItems_append ht).mp h
  obtain ⟨cs', middle', hcol', hcs, hmid⟩ := collect_perm (framed_importItem href) hpm hcol
  obtain ⟨merged', hmg', hsm⟩ := mergeImports_perm hcs .empty merged hmg
  obtain ⟨result', hr', hres⟩ := importItems_trailing htra hsm hmid result hr
  exact ⟨result', (importItems_append ht').mpr ⟨cs', middle', merged', hcol', hmg', hr'⟩, hres⟩

lemma Context.Same.mem_terms {c d : Context} (h : c.Same d) {e : String × Term}
    (he : e ∈ d.terms) : e ∈ c.terms := by
  have hterm : d.term? e.1 = some e.2 := OrdMap.get?_of_mem d.distinct he
  exact OrdMap.mem_of_get? ((h.term e.1).trans hterm)

lemma bindImports_follows (output : Context) {imports' : Context} (h : imports.Same imports') :
    Follows Context.Same (output.bindImports imports) (output.bindImports imports') := by
  intro out hout
  rw [Context.bindImports, bindAll_eq_ok imports.distinct] at hout
  obtain ⟨hadm, rfl⟩ := hout
  rw [Context.bindImports, ← h.vocab]
  refine ⟨_, (bindAll_eq_ok imports'.distinct).mpr ⟨fun e he => hadm e (h.mem_terms he), rfl⟩, ?_⟩
  constructor
  · intro name
    rw [term?_foldl imports.distinct, term?_foldl imports'.distinct]
    exact congrArg (Option.or · _) (h.term name)
  · rw [vocab_foldl, vocab_foldl]

lemma applyTrailing_follows (trailing : Option (Ion X)) {c d : Context} (h : c.Same d) :
    Follows Context.Same (applyTrailing trailing c) (applyTrailing trailing d) := by
  cases trailing with
  | none => exact follows_ok h
  | some value => exact applyInline_follows h value false

def Resolves (a b : Context × List String) : Prop := a.1.Same b.1 ∧ a.2.Perm b.2

lemma startsWithText_append {rest : List (Ion X)} (h : ∀ item ∈ items, isText item = true) :
    startsWithText (items ++ rest) = (!items.isEmpty || startsWithText rest) := by
  cases items with
  | nil => rfl
  | cons item items => exact h item List.mem_cons_self

lemma resolveContext_perm (levels : Nat) (hpm : references.Perm references')
    (ht : ∀ item ∈ references, isText item = true) (htra : ∀ item ∈ trailing, isText item = false)
    (notes : List Execution.Symbol) (inherited : Context) (base : String)
    (seen active : List String) :
    Follows Resolves
      (resolveContext host levels (.list notes (references ++ trailing.toList)) inherited base seen
        active)
      (resolveContext host levels (.list notes (references' ++ trailing.toList)) inherited base
        seen active) := by
  have ht' : ∀ item ∈ references', isText item = true := fun item hi => ht item (hpm.mem_iff.mpr hi)
  cases levels with
  | zero => exact .bind_same fun _ => follows_error
  | succ levels =>
    have href := framed_importReference host
      (fun value base active => framed_resolveContext host levels value .empty base active)
      base active
    have hfst : startsWithText (references ++ trailing.toList) =
        startsWithText (references' ++ trailing.toList) := by
      rw [startsWithText_append ht, startsWithText_append ht', hpm.isEmpty_eq]
    refine .bind_same fun _ => ?_
    dsimp only
    rw [hfst]
    refine .bind_same fun _ => ?_
    refine .bind (importItems_perm href hpm ht htra seen) ?_
    rintro ⟨⟨imports, behind⟩, after⟩ ⟨⟨imports', behind'⟩, after'⟩ ⟨hsm, hbeh, haft⟩
    obtain rfl : behind = behind' := hbeh
    refine .bind (bindImports_follows inherited hsm) fun output output' houtput => ?_
    refine .bind (applyTrailing_follows behind houtput) fun out out' hout => ?_
    exact follows_ok ⟨hout, haft⟩

/-- Protected terms are never bound again, and the order of imports does not matter. -/
theorem contexts_order_free (X : Type) :
    (∀ (host : Capabilities X) (values : List (Ion X × String)) (inherited out : Context),
      nestedContexts host values inherited = .ok out → Protects inherited out) ∧
    (∀ (host : Capabilities X) (levels : Nat) (value : Ion X) (inherited out : Context)
      (base : String) (seen active after : List String),
      resolveContext host levels value inherited base seen active = .ok (out, after) →
        Protects inherited out) ∧
    (∀ (cs cs' : List Context) (imports : Context), cs.Perm cs' →
      Follows Context.Same (mergeImports cs imports) (mergeImports cs' imports)) ∧
    ∀ (host : Capabilities X) (levels : Nat) (references references' : List (Ion X))
      (trailing : Option (Ion X)) (notes : List Execution.Symbol) (inherited : Context)
      (base : String) (seen active : List String), references.Perm references' →
      (∀ item ∈ references, isText item = true) → (∀ item ∈ trailing, isText item = false) →
      Follows Resolves
        (resolveContext host levels (.list notes (references ++ trailing.toList)) inherited base
          seen active)
        (resolveContext host levels (.list notes (references' ++ trailing.toList)) inherited base
          seen active) := by
  refine ⟨fun host values inherited out => nestedContexts_protects,
    fun host levels value inherited out base seen active after => resolveContext_protects,
    fun cs cs' imports hpm => mergeImports_perm hpm imports, ?_⟩
  intro host levels references references' trailing notes inherited base seen active hpm ht
    htra
  exact resolveContext_perm host levels hpm ht htra notes inherited base seen active

/-- A context that protects a term, and one that binds it otherwise. -/
def protecting : Ion Unit :=
  .struct [] [(some "name", .struct [] [(some "@id", .scalar []
      (.string "morphir://ir/pkg/other/metadata?format=4.1.0#/module/naming/value/name")),
      (some "@protected", .scalar [] (.bool true))])]

def rebinding : Ion Unit :=
  .struct [] [(some "name", .scalar []
    (.string "morphir://ir/pkg/other/metadata?format=4.1.0#/module/naming/value/something"))]

def protectedName : Context :=
  ⟨[("name", ⟨"morphir://ir/pkg/other/metadata?format=4.1.0#/module/naming/value/name", none,
    false, true⟩)], none, by decide⟩

def reboundName : Context :=
  ⟨[("name", ⟨"morphir://ir/pkg/other/metadata?format=4.1.0#/module/naming/value/something", none,
    false, false⟩)], none, by decide⟩

/-- The code of the refusal depends on the context that comes first. -/
theorem refusal_in_order :
    applyInline .empty protecting false = .ok protectedName ∧
    applyInline .empty rebinding false = .ok reboundName ∧
    mergeImports [protectedName, reboundName] .empty =
      .error (.invalid "metadata.protected_term_redefinition" "name"
        "Retain the protected binding") ∧
    mergeImports [reboundName, protectedName] .empty =
      .error (.invalid "metadata.context_term_collision" "name"
        "Imported contexts disagree; a trailing override cannot cure the collision") := by
  refine ⟨?_, ?_, rfl, rfl⟩
  · rfl
  · rfl

end Morphir.Metadata
