import Morphir.IR.Distributions
import Morphir.Moonbit.Spellings

/-!
# Keys of lowered types

A lowered type has a key, which the names of its shape and of its codecs are made of.  A
key can be read back: the types with one key are one type.
-/

namespace Morphir.Moonbit

open Fallible IR List

inductive Scalar
  | signedInt32
  | boundedInteger (name : String)
  | integer
  | float
  | float32
  | boolean
  | text
  | character
  | decimal
  | unit
  deriving DecidableEq

inductive Lowered
  | atom (scalar : Scalar)
  | product (items : List Lowered)
  | shape (key : String) (fields : List (Name × Lowered))
  | arrow (input output : Lowered)
  | sequence (item : Lowered)
  | optional (item : Lowered)
  | outcome (ok err : Lowered)
  | nominal (name : FQName)

structure TypeEntry where
  definition : TypeDefinition
  exposed : Bool

structure Lowering where
  types : FQName → Option TypeEntry
  sourceExtensions : List String

inductive LoweringError
  | raised (error : Invalid)
  | outOfFuel

def raised (code owner message : String) : LoweringError := .raised (.invalid code owner message)

def typeAttrs : IRType → TypeAttributes
  | .variable a _ | .reference a _ _ | .tuple a _ | .union a _ | .record a _
  | .extensibleRecord a _ _ | .function a _ _ | .unit a => a

def scalarType (tpe : IRType) (context : String) : Except LoweringError Scalar :=
  match tpe with
  | .unit attrs => do
    refuse (attrs.constraints.isEmpty = false)
      (raised "moonbit.unsupported_constraint" context "Scalar constraints are not implemented")
    return .unit
  | .reference attrs name args => do
    let _ ← (valueName name).mapError .raised
    refuse (attrs.constraints.isEmpty = false ∨ args.isEmpty = false)
      (raised "moonbit.unsupported_type" context "Constrained or parameterized scalar type")
    match name.toCanonical with
    | "morphir/SDK:basics#int" => return .integer
    | "morphir/SDK:int#int-32" => return .signedInt32
    | "morphir/SDK:int#int-16" => return .boundedInteger "int-16"
    | "morphir/SDK:int#int-64" => return .boundedInteger "int-64"
    | "morphir/SDK:int#byte" => return .boundedInteger "byte"
    | "morphir/SDK:int#uint-16" => return .boundedInteger "uint-16"
    | "morphir/SDK:int#uint-32" => return .boundedInteger "uint-32"
    | "morphir/SDK:int#uint-64" => return .boundedInteger "uint-64"
    | "morphir/SDK:basics#float" => return .float
    | "morphir/moonbit-source:float32#float32" => return .float32
    | "morphir/SDK:basics#bool" => return .boolean
    | "morphir/SDK:string#string" => return .text
    | "morphir/SDK:char#char" => return .character
    | "morphir/SDK:decimal#decimal" => return .decimal
    | canonical => .error (raised "moonbit.unsupported_type" context canonical)
  | .variable _ _ =>
    .error (raised "moonbit.ambiguous_type" context "A concrete scalar type is required")
  | _ => .error (raised "moonbit.unsupported_type" context "This slice supports scalar types only")

def Scalar.key : Scalar → String
  | .signedInt32 => "sdk-int32"
  | .boundedInteger name => "sdk-" ++ name
  | .integer => "int"
  | .float => "float"
  | .float32 => "float32"
  | .boolean => "bool"
  | .text => "text"
  | .character => "char"
  | .decimal => "decimal"
  | .unit => "unit"

def lowerKey : Lowered → String
  | .atom s => s.key
  | .product xs => "tuple(" ++ ",".intercalate (xs.map lowerKey) ++ ")"
  | .shape n _ => n
  | .arrow a b => "fn(" ++ lowerKey a ++ "," ++ lowerKey b ++ ")"
  | .sequence a => "list(" ++ lowerKey a ++ ")"
  | .optional a => "maybe(" ++ lowerKey a ++ ")"
  | .outcome a e => "result(" ++ lowerKey a ++ "," ++ lowerKey e ++ ")"
  | .nominal n => "type(" ++ n.toCanonical ++ ")"

/-- The key that `lower_type` gives a record. -/
def shapeKey (fields : List (Name × Lowered)) : String :=
  "T_r_" ++ hex (";".intercalate (fields.map fun p => p.1.toCanonical ++ ":" ++ lowerKey p.2))

def decoder (t : Lowered) : String := "decode_" ++ hex (lowerKey t)

def encoder (t : Lowered) : String := "encode_" ++ hex (lowerKey t)

/-- `lower_type`, with the fuel of its recursion and without what it records for the names
and the shapes of the package. -/
def lowerType (ctx : Lowering) (context : String) :
    Nat → List FQName → IRType → Except LoweringError Lowered
  | 0, _, _ => .error .outOfFuel
  | fuel + 1, trail, tpe => do
    let lower := lowerType ctx context fuel trail
    let unsupported {α : Type} (message : String) : Except LoweringError α :=
      .error (raised "moonbit.unsupported_type" context message)
    refuse ((typeAttrs tpe).constraints.isEmpty = false)
      (raised "moonbit.unsupported_constraint" context
        "Type constraints require a registered lowering")
    match tpe with
    | .variable _ _ => .error (raised "moonbit.ambiguous_type" context
        "Generic types require specialization before generation")
    | .union _ _ => unsupported "Untagged unions are not supported by MoonBit generation"
    | .extensibleRecord _ _ _ => unsupported "Open records require specialization"
    | .function _ a b => return .arrow (← lower a) (← lower b)
    | .tuple _ members =>
      if members.length < 2 then unsupported "Tuple arity must be at least two"
      else return .product (← members.mapM lower)
    | .record _ fields =>
      let sorted := fields.insertionSort fun a b => a.1.le b.1 = true
      let lowered ← sorted.mapM fun field => do
        (validateName field.1).mapError .raised
        return (field.1, ← lower field.2)
      return .shape (shapeKey lowered) lowered
    | .unit _ => return .atom .unit
    | .reference _ name args =>
      let _ ← (valueName name).mapError .raised
      match name.toCanonical, args with
      | "morphir/SDK:list#list", [item] => return .sequence (← lower item)
      | "morphir/SDK:maybe#maybe", [item] => return .optional (← lower item)
      | "morphir/SDK:result#result", [err, ok] => return .outcome (← lower ok) (← lower err)
      | canonical, args =>
        if args.isEmpty = false then
          unsupported "Parameterized user types require specialization"
        else
          match ctx.types name with
          | some entry =>
            let owner := name.packageName.toCanonical ++ ":" ++ name.moduleName.toCanonical ++ "#"
            if ¬ entry.exposed ∧ ¬ ("value:" ++ owner).toList <+: context.toList ∧
                ¬ ("type:" ++ owner).toList <+: context.toList then
              .error (raised "moonbit.inaccessible_type" context canonical)
            else
              match entry.definition with
              | .typeAlias params target =>
                if params.isEmpty = false ∨ name ∈ trail then
                  unsupported "Generic or cyclic alias"
                else lowerType ctx context fuel (trail ++ [name]) target
              | .custom params _ =>
                if params.isEmpty = false then unsupported "Generic custom type"
                else return .nominal name
              | .incomplete .. => .error (raised "moonbit.incomplete_type" context canonical)
          | none =>
            if canonical = "morphir/moonbit-source:float32#float32" ∧
                "float32" ∉ ctx.sourceExtensions then
              .error (raised "moonbit.missing_source_extension" context canonical)
            else return .atom (← scalarType tpe context)

def scalars : List Scalar :=
  [.signedInt32, .boundedInteger "int-16", .boundedInteger "int-64", .boundedInteger "byte",
    .boundedInteger "uint-16", .boundedInteger "uint-32", .boundedInteger "uint-64", .integer,
    .float, .float32, .boolean, .text, .character, .decimal, .unit]

/-- What `lower_type` builds: a record has the key of its fields, and its names are valid. -/
inductive Built : Lowered → Prop
  | atom {s : Scalar} : s ∈ scalars → Built (.atom s)
  | product {items : List Lowered} : (∀ item ∈ items, Built item) → Built (.product items)
  | shape {fields : List (Name × Lowered)} : (∀ f ∈ fields, ValidName f.1) →
      (∀ f ∈ fields, Built f.2) → Built (.shape (shapeKey fields) fields)
  | arrow {a b : Lowered} : Built a → Built b → Built (.arrow a b)
  | sequence {a : Lowered} : Built a → Built (.sequence a)
  | optional {a : Lowered} : Built a → Built (.optional a)
  | outcome {a e : Lowered} : Built a → Built e → Built (.outcome a e)
  | nominal {name : FQName} : ValidFQName name → Built (.nominal name)

section Words

def isWord (c : Char) : Bool := isIdentifier c || c == '-'

/-- A text that a word can stand before. -/
def Ends (rest : List Char) : Prop := ∀ c ∈ rest.head?, isWord c = false

variable {r r' : List Char}

lemma Ends.takeWhile_eq (h : Ends r) : r.takeWhile isWord = [] := by
  cases r with
  | nil => rfl
  | cons c r => exact takeWhile_cons_of_neg (by simp [h c rfl])

lemma word_inj {w w' : List Char} (hw : ∀ c ∈ w, isWord c = true) (hw' : ∀ c ∈ w', isWord c = true)
    (hr : Ends r) (hr' : Ends r') (h : w ++ r = w' ++ r') : w = w' ∧ r = r' := by
  have heq := congrArg (takeWhile isWord) h
  rw [takeWhile_append_of_pos hw, takeWhile_append_of_pos hw', hr.takeWhile_eq,
    hr'.takeWhile_eq, append_nil, append_nil] at heq
  subst heq
  exact ⟨rfl, append_cancel_left h⟩

/-- Items between separators can be read back when each of them can, whatever ends it. -/
theorem join_inj {α : Type} {text : α → List Char} {sep : Char} (hsep : isWord sep = false)
    {items items' : List α}
    (hinj : ∀ a ∈ items, ∀ b ∈ items', ∀ r r', Ends r → Ends r' → text a ++ r = text b ++ r' →
      a = b ∧ r = r')
    (hr : Ends r) (hr' : Ends r') (hne : r.head? ≠ some sep) (hne' : r'.head? ≠ some sep)
    (hitems : ∀ a ∈ items, ∀ more, text a ++ more ≠ r')
    (hitems' : ∀ b ∈ items', ∀ more, text b ++ more ≠ r)
    (h : [sep].intercalate (items.map text) ++ r = [sep].intercalate (items'.map text) ++ r') :
    items = items' ∧ r = r' := by
  have hends (more : List Char) : Ends (sep :: more) := fun c hc => by simp_all
  induction items generalizing items' with
  | nil =>
    cases items' with
    | nil => exact ⟨rfl, h⟩
    | cons b bs =>
      rw [map_cons, intercalate_cons_eq_flatMap, append_assoc] at h
      exact absurd h.symm (hitems' b mem_cons_self _)
  | cons a as ih =>
    cases items' with
    | nil =>
      rw [map_cons, intercalate_cons_eq_flatMap, append_assoc] at h
      exact absurd h (hitems a mem_cons_self _)
    | cons b bs =>
      have hhead := hinj a mem_cons_self b mem_cons_self
      cases as with
      | nil =>
        cases bs with
        | nil =>
          obtain ⟨rfl, rfl⟩ := hhead _ _ hr hr' (by simpa using h)
          exact ⟨rfl, rfl⟩
        | cons b' bs =>
          obtain ⟨-, rfl⟩ := hhead _ _ hr (hends _) (by simpa using h)
          exact absurd rfl hne
      | cons a' as =>
        cases bs with
        | nil =>
          obtain ⟨-, rfl⟩ := hhead _ _ (hends _) hr' (by simpa using h)
          exact absurd rfl hne'
        | cons b' bs =>
          obtain ⟨rfl, hrest⟩ := hhead _ _ (hends _) (hends _) (by simpa using h)
          obtain ⟨hl, rfl⟩ := ih
            (fun x hx y hy => hinj x (mem_cons_of_mem _ hx) y (mem_cons_of_mem _ hy))
            (fun x hx => hitems x (mem_cons_of_mem _ hx))
            (fun y hy => hitems' y (mem_cons_of_mem _ hy)) (by simpa using hrest)
          exact ⟨by rw [hl], rfl⟩

end Words

section Keys

/-- The constructor that a key starts with. -/
def tagOf : List Char → Nat
  | 't' :: 'u' :: _ => 1
  | 'T' :: _ => 2
  | 'f' :: 'n' :: _ => 3
  | 'l' :: _ => 4
  | 'm' :: _ => 5
  | 'r' :: _ => 6
  | 't' :: 'y' :: _ => 7
  | _ => 0

def Lowered.tag : Lowered → Nat
  | .atom _ => 0
  | .product _ => 1
  | .shape _ _ => 2
  | .arrow _ _ => 3
  | .sequence _ => 4
  | .optional _ => 5
  | .outcome _ _ => 6
  | .nominal _ => 7

variable {s t : Lowered}

lemma Built.start (h : Built t) (rest : List Char) :
    tagOf ((lowerKey t).toList ++ rest) = t.tag ∧ ¬ Ends ((lowerKey t).toList ++ rest) := by
  suffices hstart : tagOf ((lowerKey t).toList ++ rest) = t.tag ∧
      ∃ c ∈ ((lowerKey t).toList ++ rest).head?, isWord c = true from
    ⟨hstart.1, fun hends => by
      obtain ⟨c, hc, hword⟩ := hstart.2
      cases (hends c hc).symm.trans hword⟩
  cases h with
  | atom h =>
    rw [lowerKey]
    simp only [scalars, mem_cons, not_mem_nil, or_false] at h
    rcases h with rfl | rfl | rfl | rfl | rfl | rfl | rfl | rfl | rfl | rfl | rfl | rfl | rfl |
      rfl | rfl <;> exact ⟨rfl, _, rfl, rfl⟩
  | shape =>
    rw [lowerKey, shapeKey, String.toList_append]
    exact ⟨rfl, _, rfl, rfl⟩
  | _ =>
    simp only [lowerKey, String.toList_append]
    exact ⟨rfl, _, rfl, rfl⟩

lemma Built.tag_eq (hs : Built s) (ht : Built t) {r r' : List Char}
    (h : (lowerKey s).toList ++ r = (lowerKey t).toList ++ r') : s.tag = t.tag := by
  rw [← (hs.start r).1, ← (ht.start r').1, h]

lemma ends_mark {mark : String} (h : ∃ c ∈ mark.toList.head?, isWord c = false) (rest : List Char) :
    Ends (mark.toList ++ rest) := by
  intro c hc
  obtain ⟨c', hc', hmark⟩ := h
  rw [head?_append, hc'] at hc
  rwa [← Option.some.inj hc]

lemma isWord_shapeKey (fields : List (Name × Lowered)) :
    ∀ c ∈ (shapeKey fields).toList, isWord c = true := by
  rw [shapeKey, String.toList_append, forall_mem_append]
  refine ⟨all_eq_true.mp (rfl : "T_r_".toList.all isWord = true), fun c hc => ?_⟩
  rw [hex, String.toList_ofList] at hc
  rw [isWord, isIdentifier_hexChars _ c hc, Bool.true_or]

lemma notMem_canonical {name : FQName} (h : ValidFQName name) : ')' ∉ name.toCanonical.toList := by
  have hchar : ¬ IsNameChar ')' := by unfold IsNameChar; decide
  simp [FQName.toCanonical, h.packageName.notMem hchar, h.moduleName.notMem hchar,
    h.localName.notMem hchar]

lemma Built.key_inj (hs : Built s) : ∀ {t : Lowered}, Built t → ∀ {r r' : List Char}, Ends r →
    Ends r' → (lowerKey s).toList ++ r = (lowerKey t).toList ++ r' → s = t ∧ r = r' := by
  have hcomma := @ends_mark "," ⟨_, rfl, rfl⟩
  have hclose := @ends_mark ")" ⟨_, rfl, rfl⟩
  induction hs with (intro t ht r r' hr hr' heq)
  | @atom s h =>
    have htag := (Built.atom h).tag_eq ht heq
    cases ht <;> cases htag
    rename_i t ht
    have hword := fun s hs => all_eq_true.mp (all_eq_true.mp
      (rfl : (scalars.all fun s => s.key.toList.all isWord) = true) s hs)
    have hinj : ∀ s ∈ scalars, ∀ t ∈ scalars, s.key.toList = t.key.toList → s = t := by
      decide +kernel
    rw [lowerKey, lowerKey] at heq
    obtain ⟨hkey, hrest⟩ := word_inj (hword s h) (hword t ht) hr hr' heq
    exact ⟨by rw [hinj s h t ht hkey], hrest⟩
  | @product items h ih =>
    have htag := (Built.product h).tag_eq ht heq
    cases ht <;> cases htag
    rename_i items' h'
    simp only [lowerKey, String.toList_append, String.toList_intercalate, map_map, append_assoc,
      append_cancel_left_eq] at heq
    obtain ⟨rfl, hmark⟩ := @join_inj _ _ _ _ ',' rfl _ _
      (fun a ha b hb r r' => ih a ha (h' b hb)) (hclose r) (hclose r') (by simp) (by simp)
      (fun a ha more heq => ((h a ha).start more).2 (heq ▸ hclose _))
      (fun a ha more heq => ((h' a ha).start more).2 (heq ▸ hclose _)) heq
    exact ⟨rfl, append_cancel_left hmark⟩
  | @shape fields hnames h ih =>
    have htag := (Built.shape hnames h).tag_eq ht heq
    cases ht <;> cases htag
    rename_i fields' hnames' h'
    rw [lowerKey, lowerKey] at heq
    obtain ⟨hkey, hrest⟩ := word_inj (isWord_shapeKey _) (isWord_shapeKey _) hr hr' heq
    have htexts := congrArg String.toList
      (hex_inj ((String.append_right_inj _).mp (String.toList_injective hkey)))
    simp only [String.toList_intercalate, map_map] at htexts
    have hcolon {name : Name} (h : ValidName name) : ':' ∉ name.toCanonical.toList :=
      h.notMem (by unfold IsNameChar; decide) (by decide)
    have hnil : Ends [] := by simp [Ends]
    obtain ⟨rfl, -⟩ := join_inj rfl (fun a ha b hb r r' hr hr' heq => by
      simp only [Function.comp_apply, String.toList_append, append_assoc] at heq
      obtain ⟨hname, hlow⟩ := append_sep_inj (hcolon (hnames a ha)) (hcolon (hnames' b hb)) heq
      obtain ⟨hlow, hrest⟩ := ih a ha (h' b hb) hr hr' hlow
      have hname := (hnames a ha).eq_of_canonical (hnames' b hb) (String.toList_injective hname)
      exact ⟨Prod.ext hname hlow, hrest⟩) hnil hnil
      (by simp) (by simp) (by simp) (by simp) (congrArg (· ++ []) htexts)
    exact ⟨rfl, hrest⟩
  | arrow ha hb iha ihb | outcome ha hb iha ihb =>
    have htag := Built.tag_eq (by constructor <;> assumption) ht heq
    cases ht <;> cases htag
    rename_i ha' hb'
    simp only [lowerKey, String.toList_append, append_assoc, append_cancel_left_eq] at heq
    obtain ⟨rfl, hmark⟩ := iha ha' (hcomma _) (hcomma _) heq
    obtain ⟨rfl, hrest⟩ := ihb hb' (hclose _) (hclose _) (append_cancel_left hmark)
    exact ⟨rfl, append_cancel_left hrest⟩
  | sequence ha ih | optional ha ih =>
    have htag := Built.tag_eq (by constructor; assumption) ht heq
    cases ht <;> cases htag
    rename_i ha'
    simp only [lowerKey, String.toList_append, append_assoc, append_cancel_left_eq] at heq
    obtain ⟨rfl, hrest⟩ := ih ha' (hclose _) (hclose _) heq
    exact ⟨rfl, append_cancel_left hrest⟩
  | nominal h =>
    have htag := (Built.nominal h).tag_eq ht heq
    cases ht <;> cases htag
    rename_i h'
    simp only [lowerKey, String.toList_append, append_assoc, append_cancel_left_eq] at heq
    obtain ⟨hname, heq⟩ := append_sep_inj (notMem_canonical h) (notMem_canonical h') heq
    exact ⟨by rw [h.eq_of_canonical h' (String.toList_injective hname)], heq⟩

lemma Built.eq_of_key (hs : Built s) (ht : Built t) (h : lowerKey s = lowerKey t) : s = t := by
  have hnil : Ends [] := by simp [Ends]
  exact (hs.key_inj ht hnil hnil (by rw [h])).1

end Keys

section Lowering

variable {ctx : Lowering} {context : String} {tpe : IRType} {t : Lowered}

lemma scalarType_mem {s : Scalar} (h : scalarType tpe context = .ok s) : s ∈ scalars := by
  rw [scalarType.eq_def] at h
  split at h
  · obtain ⟨_, -, h⟩ := bind_ok h
    cases h
    decide
  · obtain ⟨_, -, h⟩ := bind_ok h
    obtain ⟨_, -, h⟩ := bind_ok h
    split at h <;> cases h <;> decide
  · cases h
  · cases h

lemma mapError_ok {α ε : Type} {f : Invalid → ε} {x : Except Invalid α} {a : α}
    (h : x.mapError f = .ok a) : x = .ok a := by
  cases x with
  | error e => cases h
  | ok a' => exact congrArg _ (Except.ok.inj h)

lemma lowerType_built (fuel : Nat) (trail : List FQName) (tpe : IRType)
    (h : lowerType ctx context fuel trail tpe = .ok t) : Built t := by
  induction fuel generalizing trail tpe t with
  | zero => cases h
  | succ fuel ih =>
    obtain ⟨_, -, h⟩ := bind_ok h
    split at h
    · cases h
    · cases h
    · cases h
    · obtain ⟨a, ha, h⟩ := bind_ok h
      obtain ⟨b, hb, h⟩ := bind_ok h
      cases h
      exact .arrow (ih _ _ ha) (ih _ _ hb)
    · split_ifs at h
      obtain ⟨items, hitems, h⟩ := bind_ok h
      cases h
      refine .product fun item hitem => ?_
      obtain ⟨member, -, hmember⟩ := (mapM_eq_ok.mp hitems).exists_left item hitem
      exact ih _ _ hmember
    · obtain ⟨lowered, hlowered, h⟩ := bind_ok h
      cases h
      have hfields : ∀ f ∈ lowered, ValidName f.1 ∧ Built f.2 := by
        intro f hf
        obtain ⟨field, -, hfield⟩ := (mapM_eq_ok.mp hlowered).exists_left f hf
        obtain ⟨_, hname, hfield⟩ := bind_ok hfield
        obtain ⟨low, hlow, hfield⟩ := bind_ok hfield
        cases hfield
        exact ⟨validName_of_validate (mapError_ok hname), ih _ _ hlow⟩
      exact .shape (fun f hf => (hfields f hf).1) fun f hf => (hfields f hf).2
    · cases h
      exact .atom (by decide)
    · obtain ⟨_, hname, h⟩ := bind_ok h
      have hvalid := (validFQName_of_valueName (mapError_ok hname)).1
      split at h
      · obtain ⟨a, ha, h⟩ := bind_ok h
        cases h
        exact .sequence (ih _ _ ha)
      · obtain ⟨a, ha, h⟩ := bind_ok h
        cases h
        exact .optional (ih _ _ ha)
      · obtain ⟨a, ha, h⟩ := bind_ok h
        obtain ⟨e, he, h⟩ := bind_ok h
        cases h
        exact .outcome (ih _ _ ha) (ih _ _ he)
      · split at h
        · cases h
        split at h
        · dsimp only at h
          split at h
          · cases h
          split at h
          · split at h
            · cases h
            · exact ih _ _ h
          · split at h <;> cases h
            exact .nominal hvalid
          · cases h
        · split at h
          · cases h
          obtain ⟨s, hs, h⟩ := bind_ok h
          cases h
          exact .atom (scalarType_mem hs)

end Lowering

/-- What `lower_type` returns is built, and among the types that are built a key, the name of
a codec and the name of a shape are each of one type. -/
theorem lowerKey_identifies :
    (∀ ctx context fuel trail tpe t, lowerType ctx context fuel trail tpe = .ok t → Built t) ∧
      ∀ s t, Built s → Built t → (lowerKey s = lowerKey t → s = t) ∧
        (decoder s = decoder t → s = t) ∧ (encoder s = encoder t → s = t) ∧
        ∀ key xs ys, s = .shape key xs → t = .shape key ys → xs = ys := by
  refine ⟨fun _ _ fuel trail tpe _ h => lowerType_built fuel trail tpe h, fun s t hs ht => ?_⟩
  have hkey := hs.eq_of_key ht
  refine ⟨hkey, fun h => hkey (hex_inj ((String.append_right_inj _).mp h)),
    fun h => hkey (hex_inj ((String.append_right_inj _).mp h)), ?_⟩
  rintro key fields fields' rfl rfl
  have hshape := hkey (by rw [lowerKey, lowerKey])
  simpa using hshape

end Morphir.Moonbit
