import Morphir.Files.Applications
import Morphir.Files.ClientSteps

/-!
# A client and its service

One client and the native service of its page, with every frame that was sent and every
reply that was made.  A frame takes effect at any time after it was sent, even more than
once, a reply comes at any time after it was made or never, and an exchange can end with an
error at any time.
-/

namespace Morphir.Files

def Failure.toFault : Failure → Fault
  | .denied code message => { message, effect := some "none", code := some code }
  | .uncertain code message => { message, effect := some "unknown", code := some code }

structure World (Root Files : Type) where
  client : Client := {}
  service : FileService Root Files := {}
  /-- The pickers that are open, with the exchanges that wait for them. -/
  picking : List (Nat × Int) := []
  replies : List (Nat × Except Fault Value) := []
  done : List (Action Root Files) := []

inductive Event (Root Files : Type)
  | save (id : String) (bytes : Bytes)
  | revoke (id : String)
  | choose
  | cancelPicker
  | dispose
  | start (id : String)
  | deliver (x : Nat) (disk : Disk Files)
  | refuse (x : Nat) (fault : Fault)
  | picked (x : Nat) (ticket : Int) (path : Option String) (opened : Except Raised Root)
  | unpicked (x : Nat) (ticket : Int) (fault : Fault)
  | close
  | answer (x : Nat) (result : Except Fault Value)
  | fail (x : Nat) (fault : Fault)

namespace World

variable {Root Files Edit : Type} [DecidableEq Files] (w : World Root Files)

/-- Something is done with the service, and its reply goes to an exchange. -/
def act (inv : Inventories Files Edit) (x : Nat) (action : Action Root Files) : World Root Files :=
  let answer := w.service.perform inv action
  { w with
    service := answer.left
    done := w.done ++ [action]
    replies := w.replies ++ [(x, match answer.reply with
      | .ok reply => .ok (.reply reply)
      | .error error => .error (failureReason error).toFault)] }

/-- A picker is opened for an exchange, whose reply is made when the picker ends. -/
def openPicker (inv : Inventories Files Edit) (x : Nat) : World Root Files :=
  let answer := w.service.perform inv .beginChoose
  { w with
    service := answer.left
    done := w.done ++ [.beginChoose]
    picking := match answer.reply with
      | .ok (.ticket ticket) => w.picking ++ [(x, ticket)]
      | _ => w.picking
    replies := match answer.reply with
      | .ok _ => w.replies
      | .error error => w.replies ++ [(x, .error (failureReason error).toFault)] }

def deliver (inv : Inventories Files Edit) (x : Nat) (disk : Disk Files) : World Root Files :=
  match OrdMap.get? w.client.sent x with
  | none => w
  | some .checkSession => { w with replies := w.replies ++ [(x, .ok .descriptor)] }
  | some .closeSession => w.act inv x .close
  | some .cancelPicker => w.act inv x (.cancelChoose none)
  | some .chooseWrite => w.openPicker inv x
  | some command => w.act inv x (.request command disk)

def step (inv : Inventories Files Edit) (valid : Bytes → Bool) :
    Event Root Files → World Root Files
  | .save id bytes => { w with client := w.client.save id bytes }
  | .revoke id => { w with client := w.client.revoke id false }
  | .choose => { w with client := w.client.choose }
  | .cancelPicker => { w with client := w.client.cancelPicker }
  | .dispose => { w with client := w.client.dispose }
  | .start id => { w with client := w.client.start id }
  | .deliver x disk => w.deliver inv x disk
  | .refuse x fault =>
    if x ∈ OrdMap.keys w.client.sent then { w with replies := w.replies ++ [(x, .error fault)] }
    else w
  | .picked x ticket path opened =>
    if (x, ticket) ∈ w.picking then w.act inv x (.finishChoose ticket path opened) else w
  | .unpicked x ticket fault =>
    if (x, ticket) ∈ w.picking then
      { w.act inv x (.cancelChoose (some ticket)) with
        replies := w.replies ++ [(x, .error fault)] }
    else w
  | .close => { w with service := (w.service.perform inv .close).left, done := w.done ++ [.close] }
  | .answer x result =>
    if (x, result) ∈ w.replies then { w with client := w.client.resume valid x result } else w
  | .fail x fault => { w with client := w.client.resume valid x (.error fault) }

def run (inv : Inventories Files Edit) (valid : Bytes → Bool) (events : List (Event Root Files)) :
    World Root Files := events.foldl (fun w event => w.step inv valid event) {}

end World

end Morphir.Files

/-!
## Runs of a client and its service

Every frame that takes effect was sent, every reply is what its frame was answered, and
so the revisions that a client takes for its saves are confirmed.
-/

namespace Morphir.Files

open List FileService OrdMap

namespace Client

variable {c : Client}

lemma sent_exchange (waiter : Waiter) (command : Command) :
    c.sent ⊆ (c.exchange waiter command).sent := by
  unfold exchange
  split
  · exact .refl _
  · exact subset_append_left _ _

variable (valid : Bytes → Bool) (epoch : Nat) (id : String)

lemma sent_revoke (chooser : Bool) : (c.revoke id chooser).sent = c.sent := by
  unfold revoke
  split
  · split <;> rfl
  · rfl

lemma sent_save (bytes : Bytes) : (c.save id bytes).sent = c.sent := by
  unfold save
  dsimp only
  split
  · rfl
  · split <;> rfl

lemma sent_start : c.sent ⊆ (c.start id).sent := by
  unfold start
  split
  · exact .refl _
  · split
    · split
      · exact .refl _
      · split
        · exact .refl _
        · exact sent_exchange (c := { c.put id _ with started := _ }) _ _
    · exact sent_exchange (c := c.put id _) _ _
    · exact .refl _

lemma sent_dispose : c.sent ⊆ c.dispose.sent := by
  unfold dispose
  split
  · exact .refl _
  · exact subset_append_left _ _

lemma sent_choose : c.sent ⊆ c.choose.sent := by
  unfold choose
  split
  · exact .refl _
  · exact sent_exchange (c := { c with choosing := true, pickerEpoch := c.pickerEpoch + 1 }) _ _

lemma sent_cancelPicker : c.sent ⊆ c.cancelPicker.sent :=
  sent_exchange (c := { c with pickerEpoch := c.pickerEpoch + 1 }) _ _

lemma sent_writeFrom (save : Save) (offset : Nat) : c.sent ⊆ (c.writeFrom id save offset).sent := by
  unfold writeFrom
  split <;> exact sent_exchange _ _

lemma sent_confirm (grant : ClientGrant) (save : Save) (revision : Int) :
    c.sent ⊆ (c.confirm id grant save revision).sent := by
  unfold confirm
  split
  · exact .refl _
  · exact sent_exchange (c := c.put id _) _ _

lemma sent_saveNext (grant : ClientGrant) (save : Save) (stage : Stage)
    (result : Except Fault Value) : c.sent ⊆ (c.saveNext id grant save stage result).sent := by
  unfold saveNext
  split
  · exact sent_exchange _ _
  · exact sent_writeFrom _ _ _
  · exact sent_writeFrom _ _ _
  · split
    · exact sent_confirm _ _ _ _
    · exact sent_exchange _ _
  · exact sent_exchange _ _
  · exact sent_exchange _ _
  · split
    · exact sent_confirm _ _ _ _
    · exact .refl _
  all_goals exact .refl _

lemma sent_beginSnapshot :
    c.sent ⊆ (c.beginSnapshot epoch id).sent := by
  unfold beginSnapshot
  split
  · rw [sent_revoke]
    exact .refl _
  · split
    · rw [sent_revoke]
      exact .refl _
    · exact sent_exchange (c := c.put id _) _ _

lemma sent_readFrom (sequence revision size : Int) (bytes : Bytes) :
    c.sent ⊆ (c.readFrom valid epoch id sequence revision size bytes).sent := by
  unfold readFrom
  split
  · exact sent_exchange _ _
  · split
    · exact sent_exchange _ _
    · split
      · exact sent_exchange _ _
      · exact sent_exchange (c := c.put id _) _ _

lemma sent_chooseNext (stage : Choosing) (result : Except Fault Value) :
    c.sent ⊆ (c.chooseNext valid epoch stage result).sent := by
  have hrev (c : Client) (id : String) : c.sent ⊆ (c.revoke id true).sent := by
    rw [sent_revoke]
    exact .refl _
  unfold chooseNext
  split
  · split
    · exact .refl _
    · exact sent_exchange _ _
  · dsimp only
    split
    · exact hrev (c.put _ _) _
    · exact sent_beginSnapshot (c := c.put _ _) _ _
  · exact sent_readFrom _ _ _ _ _ _ _
  · exact sent_exchange _ _
  · exact sent_exchange _ _
  · split
    · exact sent_exchange _ _
    · exact sent_readFrom _ _ _ _ _ _ _
  · exact sent_exchange _ _
  · exact sent_exchange _ _
  · split
    · split
      · exact hrev _ _
      · exact .refl _
    · exact hrev _ _
  · exact .refl _

lemma sent_revokeNext (chooser : Bool) (result : Except Fault Value) :
    (c.revokeNext id chooser result).sent = c.sent := by
  unfold revokeNext
  dsimp only
  split <;> (cases chooser <;> rfl)

lemma sent_resume (x : Nat) (result : Except Fault Value) :
    c.sent ⊆ (c.resume valid x result).sent := by
  unfold resume
  dsimp only
  split
  · exact .refl _
  · split
    · split
      · exact .refl _
      · exact sent_saveNext (c := { c with waiting := erase c.waiting x }) _ _ _ _ _
    · exact sent_chooseNext (c := { c with waiting := erase c.waiting x }) _ _ _ _
    · rw [sent_revokeNext]
      exact .refl _
    · exact .refl _

end Client

variable {Root Files Edit : Type} [DecidableEq Files] {inv : Inventories Files Edit}

lemma Effect.reply_ne_chosen {id : String} {grant grant' : FileGrant Root Files} {command : Command}
    {disk : Disk Files} {reply : Except Raised Reply} {calls : List (Call Root Files Edit)}
    (h : Effect inv id grant command disk reply calls grant') (other : String) (revision : Int)
    (name : String) : reply ≠ .ok (.chosen other revision name) := by
  cases h with
  | status =>
    unfold FileGrant.standing
    split <;> simp
  | _ => simp

lemma chosen_of_perform {self : FileService Root Files} (hvd : self.Valid)
    {action : Action Root Files} {id name : String} {revision : Int}
    (h : (self.perform inv action).reply = .ok (.chosen id revision name)) :
    (∃ ticket path opened, action = .finishChoose ticket path opened) ∧ self.Unissued id ∧
      ¬ (self.perform inv action).left.Unissued id := by
  cases action with
  | beginChoose =>
    simp only [perform, beginChoose] at h
    split at h
    · cases h
    · split at h
      · cases h
      · split at h <;> cases h
  | cancelChoose ticket => cases h
  | close => cases h
  | request command disk =>
    obtain ⟨code, heq⟩ | ⟨target, rfl, heq⟩ | ⟨target, act, -, heq, hact⟩ :=
      request_cases inv self command disk
    · rw [perform, heq] at h
      cases h
    · rw [perform, heq] at h
      cases h
    · rw [perform, heq, withGrant] at h
      split at h
      · cases h
      · exact absurd h ((hact _).reply_ne_chosen id revision name)
  | finishChoose ticket path opened =>
    refine ⟨⟨ticket, path, opened, rfl⟩, ?_⟩
    simp only [perform, finishChoose] at h
    split at h
    · cases h
    · rename_i hg
      have hpd := not_not.mp hg
      cases path with
      | none => cases h
      | some path =>
        cases opened with
        | error error => cases h
        | ok root =>
          dsimp only at h
          split at h
          · obtain ⟨rfl, -⟩ := Reply.chosen.inj (Except.ok.inj h)
            obtain ⟨hl, -⟩ := hvd.picker_last _ hpd.2
            exact ⟨⟨ticket, rfl, hl ▸ hvd.next_nonneg, .inr hpd.2⟩, not_unissued_of_finish hvd hpd⟩
          · cases h

namespace World

/-- What the reply of an exchange is worth: it is what its frame was answered. -/
def Replied (inv : Inventories Files Edit) (w : World Root Files) (x : Nat) (reply : Reply) :
    Prop :=
  ∃ command, (x, command) ∈ w.client.sent ∧
    (command = .closeSession ∨ command = .cancelPicker ∨ command = .chooseWrite ∨
      ∃ e ∈ history inv w.done, (∃ disk, e.action = .request command disk) ∧ e.answer.1 = .ok reply)

def told (inv : Inventories Files Edit) (w : World Root Files) : Told where
  granted x id := ∃ revision name, (x, .ok (.reply (.chosen id revision name))) ∈ w.replies
  confirmed id n revision := Confirmed inv w.done id n revision

structure Valid (inv : Inventories Files Edit) (w : World Root Files) : Prop where
  client : w.client.Valid (w.told inv)
  service : w.service = lived inv w.done
  requested : ∀ command disk, Action.request command disk ∈ w.done →
    ∃ x, (x, command) ∈ w.client.sent
  replied : ∀ x reply, (x, .ok (.reply reply)) ∈ w.replies → w.Replied inv x reply
  picking : ∀ x ticket, (x, ticket) ∈ w.picking → (x, .chooseWrite) ∈ w.client.sent
  chosen : ∀ x id revision name, (x, .ok (.reply (.chosen id revision name))) ∈ w.replies →
    ¬ w.service.Unissued id
  chosen_once : ∀ x y id revision revision' name name',
    (x, .ok (.reply (.chosen id revision name))) ∈ w.replies →
    (y, .ok (.reply (.chosen id revision' name'))) ∈ w.replies → x = y

variable {w : World Root Files}

lemma Valid.withClient (h : w.Valid inv) {client : Client} (hcli : client.Valid (w.told inv))
    (hsn : w.client.sent ⊆ client.sent) :
    Valid inv { w with client } where
  client := hcli
  service := h.service
  requested command disk hmem := by
    obtain ⟨x, hx⟩ := h.requested command disk hmem
    exact ⟨x, hsn hx⟩
  replied x reply hx := by
    obtain ⟨command, hcom, hr⟩ := h.replied x reply hx
    exact ⟨command, hsn hcom, hr⟩
  picking x ticket hx := hsn (h.picking x ticket hx)
  chosen := h.chosen
  chosen_once := h.chosen_once

variable {result : Except Fault Value}

lemma Valid.withReply (h : w.Valid inv) (x : Nat) (hres : ∀ reply, result ≠ .ok (.reply reply)) :
    Valid inv { w with replies := w.replies ++ [(x, result)] } := by
  have hold {y : Nat} {reply : Reply}
      (hy : (y, .ok (.reply reply)) ∈ w.replies ++ [(x, result)]) :
      (y, .ok (.reply reply)) ∈ w.replies := by
    obtain hy | hy := mem_append.mp hy
    · exact hy
    · exact absurd (Prod.mk.inj (mem_singleton.mp hy)).2.symm (hres reply)
  exact {
    client := h.client.mono
      (fun y id ⟨revision, name, hy⟩ => ⟨revision, name, mem_append_left _ hy⟩)
      fun id n revision hcon => hcon
    service := h.service
    requested := h.requested
    replied := fun y reply hy => h.replied y reply (hold hy)
    picking := h.picking
    chosen := fun y id revision name hy => h.chosen y id revision name (hold hy)
    chosen_once := fun y z id revision revision' name name' hy hz =>
      h.chosen_once y z id revision revision' name name' (hold hy) (hold hz) }

lemma Valid.withDone (h : w.Valid inv) (action : Action Root Files)
    (hrqd : ∀ command disk, action = .request command disk → ∃ x, (x, command) ∈ w.client.sent) :
    Valid inv { w with
      service := (w.service.perform inv action).left, done := w.done ++ [action] } where
  client := h.client.mono (fun _ _ hgra => hgra)
    fun id n revision hcon => Confirmed.snoc hcon action
  service := by rw [lived_snoc, h.service]
  requested command disk hmem := by
    obtain hmem | hmem := mem_append.mp hmem
    · exact h.requested command disk hmem
    · exact hrqd command disk (mem_singleton.mp hmem).symm
  replied x reply hx := by
    obtain ⟨command, hcom, hr⟩ := h.replied x reply hx
    refine ⟨command, hcom, hr.imp_right fun hr => hr.imp_right fun hr => hr.imp_right ?_⟩
    rintro ⟨e, he, hrep⟩
    refine ⟨e, ?_, hrep⟩
    rw [history_snoc]
    exact mem_append_left _ he
  picking := h.picking
  chosen x id revision name hx huni := h.chosen x id revision name hx (unissued_of_perform huni)
  chosen_once := h.chosen_once

variable {x : Nat}

section

variable (h : w.Valid inv)

include h

lemma Valid.act {action : Action Root Files} {command : Command}
    (hsn : (x, command) ∈ w.client.sent)
    (hcom : (∃ disk, action = .request command disk) ∨
      ((∀ command disk, action ≠ .request command disk) ∧
        (command = .closeSession ∨ command = .cancelPicker ∨ command = .chooseWrite))) :
    Valid inv (w.act inv x action) := by
  have hdo := h.withDone action fun command' disk heq => by
    obtain ⟨disk', hreq⟩ | ⟨ho, -⟩ := hcom
    · obtain ⟨rfl, -⟩ := Action.request.inj (heq.symm.trans hreq)
      exact ⟨x, hsn⟩
    · exact absurd heq (ho command' disk)
  have hvd : w.service.Valid := h.service ▸ lived_valid inv w.done
  unfold World.act
  dsimp only
  cases hrep : (w.service.perform inv action).reply with
  | error error => exact hdo.withReply x (by simp)
  | ok reply =>
    have hnew {id name : String} {revision : Int} (heq : reply = .chosen id revision name) :
        w.service.Unissued id ∧ ¬ (w.service.perform inv action).left.Unissued id :=
      (chosen_of_perform hvd (heq ▸ hrep)).2
    have hold {y : Nat} {reply' : Reply}
        (hy : (y, .ok (.reply reply')) ∈ w.replies ++ [(x, Except.ok (.reply reply))]) :
        (y, .ok (.reply reply')) ∈ w.replies ∨ (y = x ∧ reply' = reply) := by
      obtain hy | hy := mem_append.mp hy
      · exact .inl hy
      · obtain ⟨rfl, heq⟩ := Prod.mk.inj (mem_singleton.mp hy)
        exact .inr ⟨rfl, Value.reply.inj (Except.ok.inj heq)⟩
    exact {
      client := hdo.client.mono
        (fun y id ⟨revision, name, hy⟩ => ⟨revision, name, mem_append_left _ hy⟩)
        fun id n revision hcon => hcon
      service := hdo.service
      requested := hdo.requested
      replied := fun y reply' hy => by
        obtain hy | ⟨rfl, rfl⟩ := hold hy
        · exact hdo.replied y reply' hy
        · refine ⟨command, hsn, ?_⟩
          obtain ⟨disk, rfl⟩ | ⟨-, hclo | hccl | hcho⟩ := hcom
          · refine .inr (.inr (.inr ⟨entryOf inv (lived inv w.done) _, ?_, ⟨disk, rfl⟩, ?_⟩))
            · rw [history_snoc]
              exact mem_append_right _ mem_cons_self
            · rw [← h.service]
              exact hrep
          · exact .inl hclo
          · exact .inr (.inl hccl)
          · exact .inr (.inr (.inl hcho))
      picking := hdo.picking
      chosen := fun y id revision name hy => by
        obtain hy | ⟨-, heq⟩ := hold hy
        · exact hdo.chosen y id revision name hy
        · exact (hnew heq.symm).2
      chosen_once := fun y z id revision revision' name name' hy hz => by
        obtain hy' | ⟨rfl, heq⟩ := hold hy
        · obtain hz' | ⟨rfl, heq⟩ := hold hz
          · exact h.chosen_once y z id revision revision' name name' hy' hz'
          · exact absurd (hnew heq.symm).1 (h.chosen y id revision name hy')
        · obtain hz' | ⟨rfl, -⟩ := hold hz
          · exact absurd (hnew heq.symm).1 (h.chosen z id revision' name' hz')
          · rfl }

lemma Valid.openPicker (hsn : (x, .chooseWrite) ∈ w.client.sent) :
    Valid inv (w.openPicker inv x) := by
  have hdo := h.withDone .beginChoose (by simp)
  unfold World.openPicker
  dsimp only
  have hpic (ticket : Int) : Valid inv { w with
      service := (w.service.perform inv .beginChoose).left
      done := w.done ++ [.beginChoose]
      picking := w.picking ++ [(x, ticket)] } :=
    { hdo with
      picking := fun y t hy => by
        obtain hy | hy := mem_append.mp hy
        · exact h.picking y t hy
        · obtain ⟨rfl, -⟩ := Prod.mk.inj (mem_singleton.mp hy)
          exact hsn
      client := hdo.client
      replied := hdo.replied }
  cases hrep : (w.service.perform inv .beginChoose).reply with
  | error error => exact hdo.withReply x (by simp)
  | ok reply =>
    cases reply with
    | ticket ticket => exact hpic ticket
    | _ => exact hdo

lemma Valid.deliver (x : Nat) (disk : Disk Files) : Valid inv (w.deliver inv x disk) := by
  unfold World.deliver
  split
  · exact h
  · exact h.withReply x (by simp)
  · rename_i hsn
    exact h.act (mem_of_get? hsn) (.inr ⟨by simp, .inl rfl⟩)
  · rename_i hsn
    exact h.act (mem_of_get? hsn) (.inr ⟨by simp, .inr (.inl rfl)⟩)
  · rename_i hsn
    exact h.openPicker (mem_of_get? hsn)
  · rename_i hsn
    exact h.act (mem_of_get? hsn) (.inl ⟨disk, rfl⟩)

lemma Valid.answer (valid : Bytes → Bool) (hrep : (x, result) ∈ w.replies) :
    Valid inv { w with client := w.client.resume valid x result } := by
  refine h.withClient (h.client.resume valid x result ?_ ?_ ?_) (Client.sent_resume valid x result)
  · rintro epoch hwai id revision name rfl
    refine ⟨?_, revision, name, hrep⟩
    cases hobj : w.client.object? id with
    | none => rfl
    | some grant =>
      obtain ⟨y, ⟨revision', name', hy⟩, -, hgo⟩ := h.client.granted id grant hobj
      obtain rfl := h.chosen_once x y id _ _ _ _ hrep hy
      exact absurd (mem_map_of_mem hwai) hgo
  · rintro id save hwai m revision rfl
    obtain ⟨command, hsn, hans⟩ := h.replied x _ hrep
    obtain rfl : command = .commit id save.sequence := h.client.awaited x _ _ hwai hsn
    obtain ho | ho | ho | ⟨e, he, ⟨disk, hact⟩, hok⟩ := hans
    · cases ho
    · cases ho
    · cases ho
    · exact confirmed_of_reply he hact (.inl ⟨rfl, hok⟩)
  · rintro id save error hwai m revision rfl
    obtain ⟨command, hsn, hans⟩ := h.replied x _ hrep
    obtain rfl : command = .status id save.sequence := h.client.awaited x _ _ hwai hsn
    obtain ho | ho | ho | ⟨e, he, ⟨disk, hact⟩, hok⟩ := hans
    · cases ho
    · cases ho
    · cases ho
    · exact confirmed_of_reply he hact (.inr ⟨rfl, hok⟩)

lemma Valid.step (valid : Bytes → Bool) (event : Event Root Files) :
    Valid inv (w.step inv valid event) := by
  have hnot {client : Client} (hsn : w.client.sent = client.sent) :
      w.client.sent ⊆ client.sent := hsn ▸ .refl _
  cases event with
  | save id bytes =>
    exact h.withClient (h.client.save id bytes) (hnot (Client.sent_save id bytes).symm)
  | revoke id =>
    exact h.withClient (h.client.revoke id false) (hnot (Client.sent_revoke id false).symm)
  | choose => exact h.withClient h.client.choose Client.sent_choose
  | cancelPicker => exact h.withClient h.client.cancelPicker Client.sent_cancelPicker
  | dispose => exact h.withClient h.client.dispose Client.sent_dispose
  | start id => exact h.withClient (h.client.start id) (Client.sent_start id)
  | deliver x disk => exact h.deliver x disk
  | refuse x fault =>
    rw [World.step]
    split
    · exact h.withReply x (by simp)
    · exact h
  | picked x ticket path opened =>
    rw [World.step]
    split
    · rename_i hpic
      exact h.act (h.picking x ticket hpic) (.inr ⟨by simp, .inr (.inr rfl)⟩)
    · exact h
  | unpicked x ticket fault =>
    rw [World.step]
    split
    · exact (h.withDone (.cancelChoose (some ticket)) (by simp)).withReply x (by simp)
    · exact h
  | close => exact h.withDone .close (by simp)
  | answer x result =>
    rw [World.step]
    split
    · rename_i hrep
      exact h.answer valid hrep
    · exact h
  | fail x fault =>
    refine h.withClient (h.client.resume valid x _ ?_ ?_ ?_) (Client.sent_resume valid x _)
    · simp
    · simp
    · simp

end

lemma run_valid (inv : Inventories Files Edit) (valid : Bytes → Bool)
    (events : List (Event Root Files)) : Valid inv (run inv valid events) := by
  induction events using List.reverseRecOn with
  | nil =>
    exact {
      client := Client.valid_new _
      service := rfl
      requested := by simp [run]
      replied := by simp [run]
      picking := by simp [run]
      chosen := by simp [run]
      chosen_once := by simp [run] }
  | append_singleton events event ih =>
    rw [run, foldl_append]
    exact ih.step valid event

end World

end Morphir.Files

/-!
## Saves are made exactly once

Whatever frames are late and whatever replies are lost, a save is applied at most once and
whole, a save that resolves was applied, and nothing is sent behind a save that did not
resolve.
-/

namespace Morphir.Files

open Client List

variable {Root Files Edit : Type} [DecidableEq Files] {inv : Inventories Files Edit}

lemma Client.Valid.before {told : Told} {c : Client} (h : c.Valid told) {s t : Started}
    (hs : s ∈ c.started) (ht : t ∈ c.started) :
    s = t ∨ Before c.settled s t ∨ Before c.settled t s := by
  by_cases heq : s = t
  · exact .inl heq
  · right
    have hpai : c.started.Pairwise fun s t => Before c.settled s t ∨ Before c.settled t s :=
      h.ordered.imp .inl
    have : Std.Symm fun s t => Before c.settled s t ∨ Before c.settled t s := ⟨fun _ _ => Or.symm⟩
    exact hpai.forall hs ht heq

lemma Client.Valid.sequence_inj {told : Told} {c : Client} (h : c.Valid told) {s t : Started}
    (hs : s ∈ c.started) (ht : t ∈ c.started) (hid : s.id = t.id)
    (hseq : s.save.sequence = t.save.sequence) : s = t := by
  obtain heq | hpre | hpre := h.before hs ht
  · exact heq
  · have := (hpre.2 hid).2.1
    omega
  · have := (hpre.2 hid.symm).2.1
    omega

lemma World.Valid.uploads {w : World Root Files} (h : w.Valid inv) {s : Started}
    (hs : s ∈ w.client.started) : Uploads w.done s.id s.save.sequence s.save.bytes where
  write offset chunk disk hmem := by
    obtain ⟨x, hsn⟩ := h.requested _ disk hmem
    obtain ⟨t, ht, hid, hseq, hchunk⟩ := h.client.backed x _ hsn
    obtain rfl := h.client.sequence_inj hs ht hid.symm hseq.symm
    exact hchunk
  announce revision size disk hmem := by
    obtain ⟨x, hsn⟩ := h.requested _ disk hmem
    obtain ⟨t, ht, hid, hseq, hsz⟩ := h.client.backed x _ hsn
    obtain rfl := h.client.sequence_inj hs ht hid.symm hseq.symm
    exact hsz

def applications (inv : Inventories Files Edit) (w : World Root Files) (s : Started) : Nat :=
  (applied (history inv w.done)).count (s.id, s.save.sequence)

structure ExactlyOnce (inv : Inventories Files Edit) (w : World Root Files) : Prop where
  one : ∀ s ∈ w.client.started, ∀ t ∈ w.client.started, s.save.call = t.save.call → s = t
  once : ∀ s, applications inv w s ≤ 1
  whole : ∀ e ∈ history inv w.done, ∀ call ∈ e.answer.2, call.isApply = true →
    ∃ s ∈ w.client.started, ∃ size chunks grant baseline edit,
      Applies inv e s.id s.save.sequence size chunks grant baseline edit ∧
        FileGrant.buffer size chunks = s.save.bytes
  settled : OrdMap.Distinct w.client.settled
  /-- A save that resolves was applied once, with the revision that the service gave it. -/
  resolved : ∀ k revision, (k, .ok revision) ∈ w.client.settled → ∃ s ∈ w.client.started,
    s.save.call = k ∧ applications inv w s = 1 ∧ Confirmed inv w.done s.id s.save.sequence revision
  ordered : (applied (history inv w.done)).Pairwise fun a b =>
    ∀ s ∈ w.client.started, ∀ t ∈ w.client.started, (s.id, s.save.sequence) = a →
      (t.id, t.save.sequence) = b → s.id = t.id → s.save.call < t.save.call
  backed : ∀ x command, (x, command) ∈ w.client.sent → Backed w.client.started command
  /-- A save is started only when every save of its grant that was started before it has
  resolved. -/
  behind : ∀ s ∈ w.client.started, ∀ t ∈ w.client.started, s.id = t.id →
    s.save.call < t.save.call → ∃ revision, (s.save.call, .ok revision) ∈ w.client.settled

/-- In every run of a client against its service, with any replies lost and any frames
late, saves are made exactly once. -/
theorem saves_exactly_once (inv : Inventories Files Edit) (valid : Bytes → Bool)
    (events : List (Event Root Files)) : ExactlyOnce inv (World.run inv valid events) := by
  have h := World.run_valid inv valid events
  generalize World.run inv valid events = w at h ⊢
  have hnd : (applied (history inv w.done)).Nodup := applied_nodup w.done
  constructor
  case one => exact fun s hs t ht hca => h.client.started_inj hs ht hca
  case once => exact fun s => nodup_iff_count_le_one.mp hnd _
  case whole =>
    intro e he call hca hisApply
    obtain ⟨hent, -⟩ := entry_of_history he
    obtain hno | ⟨id, n, size, chunks, grant, baseline, edit, happlies⟩ :=
      perform_applies inv e.before e.action
    · have hmem : call ∈ (e.before.perform inv e.action).calls.filter Call.isApply := by
        rw [hent] at hca
        exact mem_filter.mpr ⟨hca, hisApply⟩
      rw [hno] at hmem
      cases hmem
    · rw [← hent] at happlies
      obtain ⟨disk, hreq, -⟩ := happlies.requested
      have hdo : .request (.commit id n) disk ∈ w.done := hreq ▸ Recording.action_mem he
      obtain ⟨x, hsn⟩ := h.requested _ disk hdo
      obtain ⟨s, hs, rfl, rfl⟩ := h.client.backed x _ hsn
      exact ⟨s, hs, size, chunks, grant, baseline, edit, happlies,
        applied_bytes he happlies (h.uploads hs)⟩
  case settled => exact h.client.settled_distinct
  case resolved =>
    intro k revision hk
    obtain ⟨s, hs, hca, hcon⟩ := h.client.settled_started k revision hk
    have happlied := Confirmed.applied hcon
    exact ⟨s, hs, hca, count_eq_one_of_mem hnd happlied, hcon⟩
  case ordered =>
    apply (applied_increasing inv w.done).imp
    rintro a b hinc s hs t ht rfl rfl hid
    have hlt : s.save.sequence < t.save.sequence := hinc hid
    obtain rfl | hpre | hpre := h.client.before hs ht
    · exact absurd hlt (lt_irrefl _)
    · exact (hpre.2 hid).1
    · have := (hpre.2 hid.symm).2.1
      omega
  case backed => exact h.client.backed
  case behind =>
    intro s hs t ht hid hlt
    obtain rfl | hpre | hpre := h.client.before hs ht
    · exact absurd hlt (lt_irrefl _)
    · exact (hpre.2 hid).2.2
    · have := (hpre.2 hid.symm).1
      omega

end Morphir.Files
