import Morphir.Engine.Paths
import Morphir.Host.Json
import Morphir.Library.Numbered
import Morphir.Library.Wildcards

/-!
# Globs of a workspace

Confined globs with literal separators, `**`, `*`, `?`, classes and alternatives.  The
matcher backtracks over the positions of a pattern and a path, remembers what it found for
each pair and stops when its budget is spent.
-/

namespace Morphir.Engine.Glob

open Fallible Wildcards Morphir.Host List

def isInverted (body : List Char) : Bool := body.head? == some '!' || body.head? == some '^'

def classItems (body : List Char) : List Char := if isInverted body then body.tail else body

def checkRanges (pattern : String) : List Char → Except String Unit
  | low :: dash :: high :: rest => do
    refuse (dash = '-' ∧ high < low) ("Reversed glob range: " ++ pattern)
    checkRanges pattern (dash :: high :: rest)
  | _ => .ok ()

def findInClass (pattern : String) (t : Char) : Bool → List Char → Except String Bool
  | found, low :: '-' :: high :: rest => do
    refuse (high < low) ("Reversed glob range: " ++ pattern)
    findInClass pattern t (found || (decide (low ≤ t) && decide (t ≤ high))) rest
  | found, c :: rest => findInClass pattern t (found || c == t) rest
  | found, [] => .ok found

lemma length_tail_dropWhile (p : Char → Bool) (chars : List Char) :
    (chars.dropWhile p).tail.length ≤ chars.length := by
  have hlen : (chars.dropWhile p).length ≤ chars.length := (dropWhile_sublist p).length_le
  rw [length_tail]
  omega

variable {chars : List Char}

lemma length_tail_dropWhile_lt {p : Char → Bool} (h : chars.dropWhile p ≠ []) :
    (chars.dropWhile p).tail.length < chars.length := by
  have hlen : (chars.dropWhile p).length ≤ chars.length := (dropWhile_sublist p).length_le
  have hpos := length_pos_of_ne_nil h
  rw [length_tail]
  omega

/-- The scan of a pattern without braces for classes that are not well formed. -/
def checkClasses (pattern : String) : List Char → Except String Unit
  | [] => .ok ()
  | c :: rest =>
    if c = '[' then
      if rest.dropWhile (· ≠ ']') = [] then .error ("Invalid glob class: " ++ pattern)
      else do
        let items := classItems (rest.takeWhile (· ≠ ']'))
        refuse (items = []) ("Invalid glob class: " ++ pattern)
        checkRanges pattern items
        checkClasses pattern (rest.dropWhile (· ≠ ']')).tail
    else if c = ']' then .error ("Unmatched glob class: " ++ pattern)
    else checkClasses pattern rest
termination_by chars => chars.length
decreasing_by
  · exact Nat.lt_succ_of_le (length_tail_dropWhile _ rest)
  · exact Nat.lt_succ_self _

/-- What is left of the budget, and the results that are remembered under their positions. -/
structure Memo where
  budget : Int
  cache : List (String × Bool)

/-- `||`, where the second operand runs when the first one is false. -/
def orElse (first : Except String (Bool × Memo)) (second : Memo → Except String (Bool × Memo)) :
    Except String (Bool × Memo) := do
  let (result, memo) ← first
  if result then pure (true, memo) else second memo

def remember (key : String) (result : Except String (Bool × Memo)) :
    Except String (Bool × Memo) := do
  let (result, memo) ← result
  pure (result, { memo with cache := OrdMap.insert memo.cache key result })

/-- The key of the positions at which `ps` of the pattern and `ts` of the path are left. -/
def position (chars text ps ts : List Char) : String :=
  toString (chars.length - ps.length) ++ ":" ++ toString (text.length - ts.length)

/-- `go`, on what is left of the pattern and of the path. -/
def go (pattern : String) (chars text ps ts : List Char) (memo : Memo) :
    Except String (Bool × Memo) :=
  match OrdMap.get? memo.cache (position chars text ps ts) with
  | some result => .ok (result, memo)
  | none =>
    if memo.budget - 1 < 0 then .error "Glob evaluation limit exceeded"
    else
      let memo := { memo with budget := memo.budget - 1 }
      remember (position chars text ps ts) <|
        match ps with
        | [] => .ok (ts.isEmpty, memo)
        | c :: rest =>
          if c = '*' then
            if rest.head? = some '*' then
              if rest.tail.head? = some '/' then
                orElse (go pattern chars text rest.tail.tail ts memo) fun memo =>
                  if ts.dropWhile (· ≠ '/') = [] then .ok (false, memo)
                  else go pattern chars text (c :: rest) (ts.dropWhile (· ≠ '/')).tail memo
              else
                orElse (go pattern chars text rest.tail ts memo) fun memo =>
                  match ts with
                  | [] => .ok (false, memo)
                  | _ :: tail => go pattern chars text (c :: rest) tail memo
            else
              orElse (go pattern chars text rest ts memo) fun memo =>
                match ts with
                | [] => .ok (false, memo)
                | t :: tail =>
                  if t = '/' then .ok (false, memo)
                  else go pattern chars text (c :: rest) tail memo
          else if c = '?' then
            match ts with
            | [] => .ok (false, memo)
            | t :: tail =>
              if t = '/' then .ok (false, memo) else go pattern chars text rest tail memo
          else if c = '[' then
            let body := rest.takeWhile (· ≠ ']')
            if rest.dropWhile (· ≠ ']') = [] ∨ body = [] then
              .error ("Invalid glob class: " ++ pattern)
            else
              match ts with
              | [] => .ok (false, memo)
              | t :: tail =>
                match findInClass pattern t false (classItems body) with
                | .error e => .error e
                | .ok found =>
                  if t = '/' ∨ found = isInverted body then .ok (false, memo)
                  else
                    go pattern chars text (rest.dropWhile (· ≠ ']')).tail tail memo
          else if c = ']' then .error ("Unmatched glob class: " ++ pattern)
          else
            match ts with
            | [] => .ok (false, memo)
            | t :: tail => if c = t then go pattern chars text rest tail memo else .ok (false, memo)
termination_by ps.length + ts.length
decreasing_by
  all_goals simp only [length_cons]
  case _ =>
    simp only [length_tail]
    omega
  case _ hne => exact Nat.add_lt_add_left (length_tail_dropWhile_lt hne) _
  case _ =>
    simp only [length_tail]
    omega
  case _ => omega
  case _ => omega
  case _ => omega
  case _ => omega
  case _ =>
    have hlen := length_tail_dropWhile (· ≠ ']') rest
    omega
  case _ => omega

def matchesPlain (pattern : String) (path : String) (budget : Int) :
    Except String (Bool × Int) := do
  checkClasses pattern pattern.toList
  let (result, memo) ← go pattern pattern.toList path.toList pattern.toList path.toList
    ⟨budget, []⟩
  pure (result, memo.budget)

structure Group where
  before : List Char
  inside : List Char
  after : List Char

/-- The loop over the characters of a pattern, with those before an open brace and those
behind it. -/
def findGroup (pattern : String) : List Char → Option (List Char) → List Char →
    Except String (Option Group)
  | _, none, [] => .ok none
  | _, some _, [] => .error ("Unclosed glob brace: " ++ pattern)
  | before, none, c :: rest =>
    if c = '{' then findGroup pattern before (some []) rest
    else if c = '}' then .error ("Unmatched glob brace: " ++ pattern)
    else findGroup pattern (before ++ [c]) none rest
  | before, some inside, c :: rest =>
    if c = '{' then .error ("Nested glob alternatives are unsupported: " ++ pattern)
    else if c = '}' then .ok (some ⟨before, inside, rest⟩)
    else findGroup pattern before (some (inside ++ [c])) rest

def Group.choices (group : Group) : List (List Char) := group.inside.splitOn ','

def Group.expand (group : Group) (choice : List Char) : List Char :=
  group.before ++ choice ++ group.after

variable {pattern : String} {group : Group}

lemma findGroup_cut {before rest : List Char} {inside : Option (List Char)}
    (hpre : '{' ∉ before ∧ '}' ∉ before) (hins : ∀ chars ∈ inside, '{' ∉ chars ∧ '}' ∉ chars)
    (h : findGroup pattern before inside rest = .ok (some group)) :
    before ++ inside.elim [] ('{' :: ·) ++ rest =
        group.before ++ '{' :: group.inside ++ '}' :: group.after ∧
      '{' ∉ group.before ++ group.inside ∧ '}' ∉ group.before ++ group.inside := by
  induction rest generalizing before inside with
  | nil => cases inside <;> simp [findGroup] at h
  | cons c rest ih =>
    cases inside with
    | none =>
      rw [findGroup] at h
      split_ifs at h with hop hclo
      · subst hop
        simpa using ih hpre (by simp) h
      · simpa using ih (by simp [hpre, Ne.symm hop, Ne.symm hclo]) (by simp) h
    | some chars =>
      obtain ⟨hchs, hchs'⟩ := hins chars rfl
      rw [findGroup] at h
      split_ifs at h with hop hclo
      · obtain rfl := Option.some.inj (Except.ok.inj h)
        subst hclo
        simp [hpre, hchs, hchs']
      · have hnx : ∀ more ∈ some (chars ++ [c]), '{' ∉ more ∧ '}' ∉ more := by
          intro more hm
          cases hm
          simp [hchs, hchs', Ne.symm hop, Ne.symm hclo]
        simpa using ih hpre hnx h

lemma findGroup_some (h : findGroup pattern [] none chars = .ok (some group)) :
    chars = group.before ++ '{' :: group.inside ++ '}' :: group.after ∧
      '{' ∉ group.before ++ group.inside ∧ '}' ∉ group.before ++ group.inside := by
  simpa using findGroup_cut (by simp) (by simp) h

lemma subset_intercalate {sep : Char} {part : List Char} {parts : List (List Char)}
    (h : part ∈ parts) : part ⊆ [sep].intercalate parts := by
  induction parts with
  | nil => cases h
  | cons first parts ih =>
    cases parts with
    | nil =>
      rw [mem_singleton.mp h, intercalate_singleton]
      exact .refl _
    | cons next parts =>
      rw [intercalate_cons_cons]
      rcases mem_cons.mp h with rfl | h
      · exact fun c hc => mem_append_left _ (mem_append_left _ hc)
      · exact fun c hc => mem_append_right _ (ih h hc)

lemma count_expand {choice : List Char} (h : findGroup pattern [] none chars = .ok (some group))
    (hcho : choice ∈ group.choices) : (group.expand choice).count '{' < chars.count '{' := by
  obtain ⟨rfl, hop, -⟩ := findGroup_some h
  have hsub : choice ⊆ group.inside := by
    rw [← join_splitOn ',' group.inside]
    exact subset_intercalate hcho
  have hno : choice.count '{' = 0 := count_eq_zero.mpr fun hc => hop (mem_append_right _ (hsub hc))
  simp only [Group.expand, count_append, count_cons_self]
  rw [count_cons_of_ne (by decide)]
  omega

/-- `matches_bounded`: what a pattern with alternatives matches, and what is left of the
budget. -/
def matchesBounded (chars : List Char) (path : String) (budget : Int) :
    Except String (Bool × Int) :=
  let pattern := String.ofList chars
  if budget - 1 < 0 then .error "Glob evaluation limit exceeded"
  else
    match Workspace.normalize pattern with
    | .error e => .error e
    | .ok _ =>
      if 512 < utf16Length pattern ∨ 4096 < utf16Length path then
        .error "Glob/path limit exceeded"
      else
        match h : findGroup pattern [] none chars with
        | .error e => .error e
        | .ok none => matchesPlain pattern path (budget - 1)
        | .ok (some group) =>
          group.choices.attach.foldlM
            (fun (state : Bool × Int) (choice : {choice // choice ∈ group.choices}) => do
              let (result, budget) ← matchesBounded (group.expand choice.1) path state.2
              pure (state.1 || result, budget)) (false, budget - 1)
termination_by chars.count '{'
decreasing_by
  exact count_expand h choice.2

def globMatches (pattern path : String) : Except String Bool := do
  let (result, _) ← matchesBounded pattern.toList path 100000
  pure result

def inItems (t : Char) : List Char → Bool
  | low :: '-' :: high :: rest => (decide (low ≤ t) && decide (t ≤ high)) || inItems t rest
  | c :: rest => c == t || inItems t rest
  | [] => false

def inClass (body : List Char) (t : Char) : Bool := inItems t (classItems body) != isInverted body

def tokens : List Char → List Token
  | [] => []
  | c :: rest =>
    if c = '*' then
      if rest.head? = some '*' then
        if rest.tail.head? = some '/' then .prefixes :: tokens rest.tail.tail
        else .anything :: tokens rest.tail
      else .segment :: tokens rest
    else if c = '?' then .one :: tokens rest
    else if c = '[' then
      .oneOf (inClass (rest.takeWhile (· ≠ ']'))) :: tokens (rest.dropWhile (· ≠ ']')).tail
    else .literal c :: tokens rest
termination_by chars => chars.length
decreasing_by
  all_goals simp only [length_cons, length_tail]
  case _ => omega
  case _ => omega
  case _ => omega
  case _ => omega
  case _ =>
    have hlen : (rest.dropWhile (· ≠ ']')).length ≤ rest.length := (dropWhile_sublist _).length_le
    omega
  case _ => omega

/-- The patterns without braces that a pattern is short for: one choice of each group. -/
inductive Alternative : List Char → List Char → Prop
  | plain {chars : List Char} (hopen : '{' ∉ chars) (hclose : '}' ∉ chars) :
      Alternative chars chars
  | group {before inside after choice chars : List Char} (hopen : '{' ∉ before ++ inside)
      (hclose : '}' ∉ before ++ inside) (hchoice : choice ∈ inside.splitOn ',')
      (h : Alternative (before ++ choice ++ after) chars) :
      Alternative (before ++ '{' :: inside ++ '}' :: after) chars

lemma findInClass_ok {t : Char} {found result : Bool} {items : List Char}
    (h : findInClass pattern t found items = .ok result) : result = (found || inItems t items) := by
  fun_induction findInClass pattern t found items with
  | case1 found low high rest ih =>
    obtain ⟨_, _, h⟩ := bind_ok h
    rw [ih h, inItems, Bool.or_assoc]
  | case2 found c rest hrg ih =>
    rw [ih h, inItems, Bool.or_assoc]
    exact hrg
  | case3 found =>
    obtain rfl : found = result := Except.ok.inj h
    rw [inItems, Bool.or_false]

section Matcher

variable {pattern : String} {chars text : List Char}

lemma eq_of_suffix {whole as bs : List Char} (ha : as <:+ whole) (hb : bs <:+ whole)
    (h : whole.length - as.length = whole.length - bs.length) : as = bs := by
  have hlen : as.length = bs.length := by
    have := ha.length_le
    have := hb.length_le
    omega
  exact (suffix_of_suffix_length_le ha hb hlen.le).eq_of_length hlen

lemma position_injective {ps ps' ts ts' : List Char} (hps : ps <:+ chars) (hps' : ps' <:+ chars)
    (hts : ts <:+ text) (hts' : ts' <:+ text)
    (h : position chars text ps ts = position chars text ps' ts') : ps = ps' ∧ ts = ts' := by
  have hco (n : Nat) : ':' ∉ (toString n).toList := by
    intro hmem
    rw [Nat.toString_eq_ofList_toDigits, String.toList_ofList] at hmem
    exact absurd (Nat.isDigit_of_mem_toDigits (by decide) (by decide) hmem) (by decide)
  have hli := congrArg String.toList h
  have hsep : ":".toList = [':'] := rfl
  simp only [position, String.toList_append, append_assoc, hsep, singleton_append]
    at hli
  rw [append_cons_inj_of_notMem (hco _) (hco _)] at hli
  obtain ⟨hp, -, ht⟩ := hli
  exact ⟨eq_of_suffix hps hps' (Numbered.toString_injective (String.toList_injective hp)),
    eq_of_suffix hts hts' (Numbered.toString_injective (String.toList_injective ht))⟩

/-- What is remembered for a pair of positions is what the rest of the pattern means. -/
def Sound (chars text : List Char) (memo : Memo) : Prop :=
  ∀ ps ts result, ps <:+ chars → ts <:+ text →
    OrdMap.get? memo.cache (position chars text ps ts) = some result →
    (result = true ↔ ts ∈ language (tokens ps))

/-- A result that is returned says whether a property holds, and what is remembered stays
sound. -/
def Decides (chars text : List Char) (P : Prop) (x : Except String (Bool × Memo)) : Prop :=
  ∀ result memo, x = .ok (result, memo) → (result = true ↔ P) ∧ Sound chars text memo

lemma sound_nil (budget : Int) : Sound chars text ⟨budget, []⟩ := by
  intro ps ts result _ _ h
  cases h

lemma decides_error (P : Prop) (e : String) : Decides chars text P (.error e) := by
  intro result memo h
  cases h

variable {memo : Memo}

variable {P : Prop}

lemma decides_ok {result : Bool} (hm : Sound chars text memo) (h : result = true ↔ P) :
    Decides chars text P (.ok (result, memo)) := by
  rintro _ _ ⟨⟩
  exact ⟨h, hm⟩

lemma decides_false (hm : Sound chars text memo) (h : ¬ P) :
    Decides chars text P (.ok (false, memo)) :=
  decides_ok hm (iff_of_false Bool.false_ne_true h)

variable {x : Except String (Bool × Memo)}

lemma Decides.congr {Q : Prop} (h : Decides chars text P x) (hPQ : Q ↔ P) :
    Decides chars text Q x :=
  fun result memo hx => ⟨(h result memo hx).1.trans hPQ.symm, (h result memo hx).2⟩

lemma Decides.orElse {Q : Prop} {first : Except String (Bool × Memo)}
    {second : Memo → Except String (Bool × Memo)} (h : Decides chars text P first)
    (hsnd : ∀ memo, Sound chars text memo → Decides chars text Q (second memo)) :
    Decides chars text (P ∨ Q) (Glob.orElse first second) := by
  intro result memo hrun
  obtain ⟨⟨answer, memo₁⟩, hfst, hr⟩ := bind_ok hrun
  obtain ⟨hans, hm₁⟩ := h answer memo₁ hfst
  cases answer with
  | true =>
    cases hr
    exact ⟨iff_of_true rfl (.inl (hans.mp rfl)), hm₁⟩
  | false =>
    obtain ⟨hres, hm⟩ := hsnd memo₁ hm₁ result memo hr
    have hP : ¬ P := fun hP => Bool.false_ne_true (hans.mpr hP)
    exact ⟨hres.trans (or_iff_right hP).symm, hm⟩

lemma Decides.remember {ps ts : List Char} (hps : ps <:+ chars) (hts : ts <:+ text)
    (h : Decides chars text (ts ∈ language (tokens ps)) x) :
    Decides chars text (ts ∈ language (tokens ps))
      (Glob.remember (position chars text ps ts) x) := by
  intro result memo hrun
  obtain ⟨⟨answer, memo₁⟩, hx, hr⟩ := bind_ok hrun
  obtain ⟨hans, hm₁⟩ := h answer memo₁ hx
  cases hr
  refine ⟨hans, ?_⟩
  intro ps' ts' result' hps' hts' hget
  rw [OrdMap.get?_insert] at hget
  split_ifs at hget with heq
  · obtain ⟨rfl, rfl⟩ := position_injective hps hps' hts hts' heq
    exact Option.some.inj hget ▸ hans
  · exact hm₁ ps' ts' result' hps' hts' hget

def withNext (ts : List Char) (memo : Memo)
    (next : Char → List Char → Except String (Bool × Memo)) : Except String (Bool × Memo) :=
  match ts with
  | [] => .ok (false, memo)
  | t :: tail => next t tail

section

variable (hm : Sound chars text memo)

include hm

lemma decides_next {P : Char → List Char → Prop} {ts : List Char}
    {next : Char → List Char → Except String (Bool × Memo)}
    (h : ∀ t tail, ts = t :: tail → Decides chars text (P t tail) (next t tail)) :
    Decides chars text (∃ t tail, ts = t :: tail ∧ P t tail) (withNext ts memo next) := by
  cases ts with
  | nil => exact decides_false hm (by simp)
  | cons t tail =>
    refine (h t tail rfl).congr ⟨?_, fun hP => ⟨t, tail, rfl, hP⟩⟩
    rintro ⟨_, _, heq, hP⟩
    obtain ⟨rfl, rfl⟩ := List.cons.inj heq
    exact hP

lemma decides_unless {c : Prop} [Decidable c] (h : ¬ c → Decides chars text P x) :
    Decides chars text (¬ c ∧ P) (if c then .ok (false, memo) else x) := by
  split_ifs with hc
  · exact decides_false hm fun hP => hP.1 hc
  · exact (h hc).congr (and_iff_right hc)

lemma decides_when {c : Prop} [Decidable c] (h : Decides chars text P x) :
    Decides chars text (c ∧ P) (if c then x else .ok (false, memo)) := by
  split_ifs with hc
  · exact h.congr (and_iff_right hc)
  · exact decides_false hm fun hP => hc hP.1

end

/-- The matcher answers what the rest of the pattern means wherever less than `n` characters
are left. -/
def AnswersBelow (pattern : String) (chars text : List Char) (n : Nat) : Prop :=
  ∀ {ps ts : List Char} {memo : Memo}, ps.length + ts.length < n → ps <:+ chars → ts <:+ text →
    Sound chars text memo →
    Decides chars text (ts ∈ language (tokens ps)) (go pattern chars text ps ts memo)

section Step

variable {c : Char} {rest ts : List Char} {memo : Memo}

section

variable (below : AnswersBelow pattern chars text ((c :: rest).length + ts.length))

include below

lemma decides_tail {L : Language Char} {ps : List Char} (hps : ps <:+ c :: rest)
    (hchs : ps <:+ chars) (hts : ts <:+ text) (hm : Sound chars text memo) {t : Char}
    {tail : List Char} (heq : ts = t :: tail) (hL : L = language (tokens ps)) :
    Decides chars text (tail ∈ L) (go pattern chars text ps tail memo) := by
  subst heq hL
  refine below ?_ hchs ((suffix_cons t tail).trans hts) hm
  have hlen := hps.length_le
  have hc : (t :: tail).length = tail.length + 1 := rfl
  omega

lemma decides_class {body next : List Char} (hnx : next <:+ rest) (hps : c :: rest <:+ chars)
    (hts : ts <:+ text) (hm : Sound chars text memo)
    (htok : tokens (c :: rest) = .oneOf (inClass body) :: tokens next) :
    Decides chars text (ts ∈ language (tokens (c :: rest)))
      (withNext ts memo fun t tail =>
        match findInClass pattern t false (classItems body) with
        | .error e => .error e
        | .ok found =>
          if t = '/' ∨ found = isInverted body then .ok (false, memo)
          else go pattern chars text next tail memo) := by
  have hmeans : ts ∈ language (tokens (c :: rest)) ↔ ∃ t tail, ts = t :: tail ∧
      (t ≠ '/' ∧ inClass body t = true) ∧ tail ∈ language (tokens next) := by
    rw [htok]
    exact mem_single_mul
  have hsuf : next <:+ c :: rest := hnx.trans (suffix_cons c rest)
  refine .congr (decides_next hm fun t tail heq => ?_) hmeans
  have htl := decides_tail below hsuf (hsuf.trans hps) hts hm heq rfl
  cases hfn : findInClass pattern t false (classItems body) with
  | error e => exact decides_error _ e
  | ok found =>
    have hits := findInClass_ok hfn
    rw [Bool.false_or] at hits
    refine (decides_unless hm fun _ => htl).congr (and_congr_left' ?_)
    rw [inClass, ← hits, bne_iff_ne, not_or]

end

end Step

lemma go_decides {ps ts : List Char} (hps : ps <:+ chars) (hts : ts <:+ text)
    (hm : Sound chars text memo) :
    Decides chars text (ts ∈ language (tokens ps)) (go pattern chars text ps ts memo) := by
  induction hn : ps.length + ts.length using Nat.strong_induction_on
    generalizing ps ts memo with
  | _ n ih =>
  have below : AnswersBelow pattern chars text (ps.length + ts.length) :=
    fun hlt hps hts hm => ih _ (hn ▸ hlt) hps hts hm rfl
  rw [go]
  split
  next result hget => exact decides_ok hm (hm ps ts result hps hts hget)
  next hget =>
    by_cases hbud : memo.budget - 1 < 0
    · rw [if_pos hbud]
      exact decides_error _ _
    rw [if_neg hbud]
    apply Decides.remember hps hts
    have hspent : Sound chars text { memo with budget := memo.budget - 1 } := hm
    cases ps with
    | nil =>
      refine decides_ok hspent ?_
      rw [tokens, mem_language_nil, List.isEmpty_iff]
    | cons c rest =>
      have hr : rest <:+ c :: rest := List.suffix_cons c rest
      have hsh : rest.length + ts.length < (c :: rest).length + ts.length := by
        simp only [length_cons]
        omega
      dsimp only
      by_cases hstar : c = '*'
      · rw [if_pos hstar]
        by_cases hdou : rest.head? = some '*'
        · rw [if_pos hdou]
          by_cases hsl : rest.tail.head? = some '/'
          · -- any number of segments, each with the slash behind it
            rw [if_pos hsl]
            have hmeans : ts ∈ language (tokens (c :: rest)) ↔
                ts ∈ language (tokens rest.tail.tail) ∨ ¬ ts.dropWhile (· ≠ '/') = [] ∧
                  (ts.dropWhile (· ≠ '/')).tail ∈ language (tokens (c :: rest)) := by
              rw [tokens, if_pos hstar, if_pos hdou, if_pos hsl]
              exact mem_slashed_mul_iff
            have hnx : rest.tail.tail <:+ c :: rest :=
              ((tail_suffix _).trans (tail_suffix _)).trans hr
            have hsh : rest.tail.tail.length + ts.length < (c :: rest).length + ts.length := by
              simp only [length_tail]
              omega
            have htl : (ts.dropWhile (· ≠ '/')).tail <:+ text :=
              ((tail_suffix _).trans (dropWhile_suffix _)).trans hts
            refine .congr (.orElse (below hsh (hnx.trans hps) hts hspent)
              fun memo hm => decides_unless hm fun hne => below ?_ hps htl hm) hmeans
            exact Nat.add_lt_add_left (length_tail_dropWhile_lt hne) _
          · -- any text, also with slashes
            rw [if_neg hsl]
            have hmeans : ts ∈ language (tokens (c :: rest)) ↔
                ts ∈ language (tokens rest.tail) ∨ ∃ d tail,
                  ts = d :: tail ∧ True ∧ tail ∈ language (tokens (c :: rest)) := by
              rw [tokens, if_pos hstar, if_pos hdou, if_neg hsl]
              exact mem_run_mul
            simp only [true_and] at hmeans
            have hnx : rest.tail <:+ c :: rest := (tail_suffix _).trans hr
            have hsh : rest.tail.length + ts.length < (c :: rest).length + ts.length := by
              simp only [length_tail]
              omega
            exact .congr (.orElse (below hsh (hnx.trans hps) hts hspent)
              fun memo hm => decides_next hm fun d tail heq =>
                decides_tail below suffix_rfl hps hts hm heq rfl) hmeans
        · -- any text in a segment
          rw [if_neg hdou]
          have hmeans : ts ∈ language (tokens (c :: rest)) ↔
              ts ∈ language (tokens rest) ∨ ∃ d tail,
                ts = d :: tail ∧ d ≠ '/' ∧ tail ∈ language (tokens (c :: rest)) := by
            rw [tokens, if_pos hstar, if_neg hdou, language_cons]
            exact mem_run_mul
          exact Decides.congr (Decides.orElse (below hsh (hr.trans hps) hts hspent)
            fun memo hm => decides_next hm fun d tail heq => decides_unless hm fun _ =>
              decides_tail below suffix_rfl hps hts hm heq rfl) hmeans
      · rw [if_neg hstar]
        by_cases hone : c = '?'
        · rw [if_pos hone]
          have hmeans : ts ∈ language (tokens (c :: rest)) ↔ ∃ d tail,
              ts = d :: tail ∧ d ≠ '/' ∧ tail ∈ language (tokens rest) := by
            rw [tokens, if_neg hstar, if_pos hone, language_cons]
            exact mem_single_mul
          exact Decides.congr (decides_next hspent fun d tail heq => decides_unless hspent fun _ =>
            decides_tail below hr (hr.trans hps) hts hspent heq rfl) hmeans
        · rw [if_neg hone]
          by_cases hclass : c = '['
          · rw [if_pos hclass]
            split_ifs with hbo
            · exact decides_error _ _
            · have hnx : (rest.dropWhile (· ≠ ']')).tail <:+ rest :=
                (tail_suffix _).trans (dropWhile_suffix _)
              apply decides_class below hnx hps hts hspent
              rw [tokens, if_neg hstar, if_neg hone, if_pos hclass]
          · rw [if_neg hclass]
            split_ifs with hclo
            · exact decides_error _ _
            · have hmeans : ts ∈ language (tokens (c :: rest)) ↔ ∃ d tail,
                  ts = d :: tail ∧ c = d ∧ tail ∈ language (tokens rest) := by
                rw [tokens, if_neg hstar, if_neg hone, if_neg hclass, language_cons]
                simp only [eq_comm (a := c)]
                exact mem_single_mul
              exact Decides.congr (decides_next hspent fun d tail heq => decides_when hspent
                (decides_tail below hr (hr.trans hps) hts hspent heq rfl)) hmeans

end Matcher

lemma matchesPlain_ok {path : String} {budget left : Int} {answer : Bool}
    (h : matchesPlain pattern path budget = .ok (answer, left)) :
    answer = true ↔ path.toList ∈ language (tokens pattern.toList) := by
  obtain ⟨_, _, h⟩ := bind_ok h
  obtain ⟨⟨result, memo⟩, hgo, h⟩ := bind_ok h
  obtain ⟨rfl, rfl⟩ := Prod.mk.inj (Except.ok.inj h)
  exact (go_decides suffix_rfl suffix_rfl (sound_nil budget) result memo hgo).1

section Alternatives

variable {pattern : String}

variable {before rest inside chars : List Char}

lemma findGroup_before {acc : List Char} (hop : '{' ∉ before) (hclo : '}' ∉ before) :
    findGroup pattern acc none (before ++ rest) = findGroup pattern (acc ++ before) none rest := by
  induction before generalizing acc with
  | nil => rw [nil_append, append_nil]
  | cons c before ih =>
    rw [mem_cons, not_or] at hop hclo
    rw [cons_append, findGroup, if_neg (Ne.symm hop.1), if_neg (Ne.symm hclo.1),
      ih hop.2 hclo.2, ← append_cons]

lemma findGroup_inside {acc : List Char} (hop : '{' ∉ inside) (hclo : '}' ∉ inside) :
    findGroup pattern before (some acc) (inside ++ rest) =
      findGroup pattern before (some (acc ++ inside)) rest := by
  induction inside generalizing acc with
  | nil => rw [nil_append, append_nil]
  | cons c inside ih =>
    rw [mem_cons, not_or] at hop hclo
    rw [cons_append, findGroup, if_neg (Ne.symm hop.1), if_neg (Ne.symm hclo.1),
      ih hop.2 hclo.2, ← append_cons]

lemma findGroup_plain (hop : '{' ∉ chars) (hclo : '}' ∉ chars) :
    findGroup pattern [] none chars = .ok none := by
  rw [← append_nil chars, findGroup_before hop hclo, findGroup]

lemma findGroup_group {after : List Char}
    (hop : '{' ∉ before ++ inside) (hclo : '}' ∉ before ++ inside) :
    findGroup pattern [] none (before ++ '{' :: inside ++ '}' :: after) =
      .ok (some ⟨before, inside, after⟩) := by
  rw [mem_append, not_or] at hop hclo
  rw [append_assoc, findGroup_before hop.1 hclo.1, cons_append, findGroup,
    findGroup_inside hop.2 hclo.2]
  rfl

lemma findGroup_some_ne :
    findGroup pattern before (some inside) rest ≠ .ok none := by
  induction rest generalizing inside with
  | nil => exact nofun
  | cons c rest ih =>
    rw [findGroup]
    split_ifs
    · exact nofun
    · exact nofun
    · exact ih

lemma findGroup_none (h : findGroup pattern before none chars = .ok none) :
    '{' ∉ chars ∧ '}' ∉ chars := by
  induction chars generalizing before with
  | nil => exact ⟨not_mem_nil, not_mem_nil⟩
  | cons c rest ih =>
    rw [findGroup] at h
    split_ifs at h with hop hclo
    · exact absurd h findGroup_some_ne
    · obtain ⟨hr, hr'⟩ := ih h
      exact ⟨not_mem_cons_of_ne_of_not_mem (Ne.symm hop) hr,
        not_mem_cons_of_ne_of_not_mem (Ne.symm hclo) hr'⟩

lemma alternative_plain {plain : List Char} (hop : '{' ∉ chars) :
    Alternative chars plain → plain = chars := by
  intro h
  cases h with
  | plain => rfl
  | group => exact absurd (by simp) hop

lemma alternative_group {plain : List Char}
    (hfn : findGroup pattern [] none chars = .ok (some group)) :
    Alternative chars plain ↔
      ∃ choice ∈ group.choices, Alternative (group.expand choice) plain := by
  constructor
  · intro h
    cases h with
    | plain hop hclo =>
      rw [findGroup_plain hop hclo] at hfn
      cases hfn
    | group hop hclo hcho h =>
      rw [findGroup_group hop hclo] at hfn
      obtain rfl := Option.some.inj (Except.ok.inj hfn)
      exact ⟨_, hcho, h⟩
  · rintro ⟨choice, hcho, h⟩
    obtain ⟨rfl, hop, hclo⟩ := findGroup_some hfn
    exact .group hop hclo hcho h

lemma foldlM_any {α : Type} {f : Bool × Int → α → Except String (Bool × Int)} {P : α → Prop}
    (hf : ∀ found budget a found' budget', f (found, budget) a = .ok (found', budget') →
      (found' = true ↔ found = true ∨ P a))
    {items : List α} {found found' : Bool} {budget budget' : Int}
    (h : items.foldlM f (found, budget) = .ok (found', budget')) :
    found' = true ↔ found = true ∨ ∃ a ∈ items, P a := by
  induction items generalizing found budget with
  | nil =>
    cases h
    simp
  | cons a items ih =>
    obtain ⟨⟨found₁, budget₁⟩, hfst, h⟩ := bind_ok h
    rw [ih h, hf _ _ _ _ _ hfst, exists_mem_cons_iff, or_assoc]

lemma matchesBounded_ok {path : String} {budget left : Int} {answer : Bool}
    (h : matchesBounded chars path budget = .ok (answer, left)) :
    answer = true ↔
      ∃ plain, Alternative chars plain ∧ path.toList ∈ language (tokens plain) := by
  induction hn : chars.count '{' using Nat.strong_induction_on
    generalizing chars budget answer left with
  | _ n ih =>
  subst hn
  rw [matchesBounded] at h
  split_ifs at h with hbud hlim
  · split at h <;> cases h
  split at h
  · cases h
  split at h
  next e he => cases h
  next hfn =>
    obtain ⟨hop, hclo⟩ := findGroup_none hfn
    rw [matchesPlain_ok h, String.toList_ofList]
    constructor
    · intro hmem
      exact ⟨chars, .plain hop hclo, hmem⟩
    · rintro ⟨plain, hpl, hmem⟩
      exact alternative_plain hop hpl ▸ hmem
  next group hfn =>
    have hany := foldlM_any
      (fun found budget choice found' budget' hs => by
        obtain ⟨⟨result, budget₁⟩, hres, hs⟩ := bind_ok hs
        cases hs
        rw [Bool.or_eq_true, ih _ (count_expand hfn choice.2) hres rfl]) h
    rw [hany]
    simp only [alternative_group hfn, mem_attach, true_and, Subtype.exists,
      Bool.false_eq_true, false_or]
    constructor
    · rintro ⟨choice, hcho, plain, hpl, hmem⟩
      exact ⟨plain, ⟨choice, hcho, hpl⟩, hmem⟩
    · rintro ⟨plain, ⟨choice, hcho, hpl⟩, hmem⟩
      exact ⟨choice, hcho, plain, hpl, hmem⟩

end Alternatives

/-- An answer that is returned says whether a pattern that the given one is short for has the
path in its language, whatever the budget was. -/
theorem globMatches_iff (pattern path : String) :
    (∀ answer, globMatches pattern path = .ok answer → (answer = true ↔
        ∃ plain, Alternative pattern.toList plain ∧ path.toList ∈ language (tokens plain))) ∧
    ∀ budget answer left, matchesBounded pattern.toList path budget = .ok (answer, left) →
      (answer = true ↔
        ∃ plain, Alternative pattern.toList plain ∧ path.toList ∈ language (tokens plain)) := by
  constructor
  · intro answer h
    obtain ⟨⟨result, left⟩, hres, h⟩ := bind_ok h
    cases h
    exact matchesBounded_ok hres
  · intro budget answer left h
    exact matchesBounded_ok h

theorem globMatches_iff_one : globMatches "?" "b" = .ok true ∧
    ∃ plain, Alternative "?".toList plain ∧ "b".toList ∈ language (tokens plain) := by
  have hpat : "?".toList = ['?'] := rfl
  have hp : "b".toList = ['b'] := rfl
  have hnor : Workspace.normalize (String.ofList ['?']) = .ok "?" := rfl
  have hfn : findGroup (String.ofList ['?']) [] none ['?'] = .ok none := rfl
  have hcla : checkClasses (String.ofList ['?']) ['?'] = .ok () := by
    rw [checkClasses, if_neg (by decide), if_neg (by decide), checkClasses]
  have hgo : ∃ memo, go (String.ofList ['?']) ['?'] ['b'] ['?'] ['b'] ⟨99999, []⟩ =
      .ok (true, memo) := by
    apply Exists.intro
    rw [go]
    dsimp only
    rw [if_neg (by decide), if_neg (by decide), go]
    rfl
  have hrun : globMatches "?" "b" = .ok true := by
    obtain ⟨memo, hgo⟩ := hgo
    have hbou : matchesBounded ['?'] "b" 100000 = .ok (true, memo.budget) := by
      rw [matchesBounded]
      rw [if_neg (by decide), hnor]
      dsimp only
      rw [if_neg (by decide)]
      split
      next e he => cases he
      next he =>
        rw [matchesPlain, String.toList_ofList, hp, hcla]
        have hbud : (100000 : Int) - 1 = 99999 := rfl
        rw [hbud, hgo]
        rfl
      next group he => cases he
    rw [globMatches, hpat, hbou]
    rfl
  exact ⟨hrun, ((globMatches_iff "?" "b").1 true hrun).mp rfl⟩

end Morphir.Engine.Glob
