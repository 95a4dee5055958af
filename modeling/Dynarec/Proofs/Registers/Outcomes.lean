/-
How an operation can end.

An operation of the register engine, or a step of code generation, succeeds or fails. Four things
are said of that: what holds if it succeeds (`Leads`), that it succeeds (`Completes`), both together
(`Yields`), and that if it fails, it is not because every register is locked (`Secure`). Each has a
rule for every way to put operations together, so that the proofs about an operation follow its
text.
-/
import Dynarec.Proofs.Registers.Session

set_option autoImplicit false

namespace Dynarec.Registers

/-! ## Outcomes -/

/-- If the operation succeeds on `e`, then `P` holds of its result and of what it leaves. -/
def Leads {σ α : Type} (op : StateT σ (Except Fault) α) (e : σ) (P : α → σ → Prop) : Prop :=
  ∀ a e', op e = .ok (a, e') → P a e'

/-- The operation succeeds on `e`, and `P` holds of its result and of what it leaves. -/
def Yields {σ α : Type} (op : StateT σ (Except Fault) α) (e : σ) (P : α → σ → Prop) : Prop :=
  ∃ a e', op e = .ok (a, e') ∧ P a e'

/-- The operation succeeds on `e`. -/
def Completes {σ α : Type} (op : StateT σ (Except Fault) α) (e : σ) : Prop :=
  ∃ a e', op e = .ok (a, e')

/-- The fault says that every register of a class is locked. -/
def Fault.isExhaustion : Fault → Bool
  | .violation (.exhausted ..) => true
  | _ => false

/-- If the computation fails, it is not for want of a register. -/
def Harmless {α : Type} (m : Except Fault α) : Prop :=
  ∀ g, m = .error g → Fault.isExhaustion g = false

/-- The operation does not run out of registers on `e`, and `P` holds if it succeeds. -/
structure Secure {σ α : Type} (op : StateT σ (Except Fault) α) (e : σ) (P : α → σ → Prop) :
    Prop where
  supplied : Harmless (op e)
  leads : Leads op e P

section Harmless

variable {α β : Type} {m : Except Fault α}

theorem harmless_ok (a : α) : Harmless (.ok a) := fun _ h => nomatch h

theorem harmless_error {g : Fault} (hg : Fault.isExhaustion g = false) :
    Harmless (.error g : Except Fault α) := by
  rintro _ ⟨⟩
  exact hg

theorem harmless_require {p : Prop} [Decidable p] {a : α} {g : Fault}
    (hg : Fault.isExhaustion g = false) : Harmless (if p then .ok a else .error g) := by
  split
  · exact harmless_ok a
  · exact harmless_error hg

theorem harmless_bind {f : α → Except Fault β} (hm : Harmless m) (hf : ∀ a, Harmless (f a)) :
    Harmless (m >>= f) := by
  cases m with
  | error g => exact harmless_error (hm g rfl)
  | ok a => exact hf a

theorem harmless_map {f : α → β} (hm : Harmless m) : Harmless (f <$> m) := by
  cases m with
  | error g => exact harmless_error (hm g rfl)
  | ok a => exact harmless_ok (f a)

theorem harmless_foldlM {f : β → α → Except Fault β} (hf : ∀ b a, Harmless (f b a)) (l : List α)
    (b : β) : Harmless (l.foldlM f b) := by
  induction l generalizing b with
  | nil => exact harmless_ok b
  | cons a l ih =>
    rw [List.foldlM_cons]
    exact harmless_bind (hf b a) ih

end Harmless

/-! ## Putting operations together -/

section Results

variable {σ α β : Type} {op : StateT σ (Except Fault) α} {e : σ} {P : α → σ → Prop}
  {R : β → σ → Prop}

theorem Leads.mono {P' : α → σ → Prop} (h : Leads op e P) (hP : ∀ a e', P a e' → P' a e') :
    Leads op e P' :=
  fun a e' ha => hP a e' (h a e' ha)

theorem Leads.and {P' : α → σ → Prop} (h : Leads op e P) (h' : Leads op e P') :
    Leads op e fun a e' => P a e' ∧ P' a e' :=
  fun a e' ha => ⟨h a e' ha, h' a e' ha⟩

theorem leads_pure {a : α} (h : P a e) : Leads (pure a) e P := by
  intro b e' hb
  cases hb
  exact h

theorem leads_bind {f : α → StateT σ (Except Fault) β}
    (h : Leads op e fun a e' => Leads (f a) e' R) : Leads (op >>= f) e R := by
  intro b e'' hb
  replace hb : (op e >>= fun p => f p.1 p.2) = .ok (b, e'') := hb
  cases hop : op e with
  | error g =>
    rw [hop] at hb
    exact nomatch hb
  | ok p =>
    rw [hop] at hb
    exact h p.1 p.2 hop b e'' hb

theorem Leads.bind {f : α → StateT σ (Except Fault) β} (h : Leads (op >>= f) e R) :
    Leads op e fun a e' => Leads (f a) e' R := by
  intro a e' ha b e'' hb
  have hbind : (op e >>= fun p => f p.1 p.2) = .ok (b, e'') := by
    rw [ha]
    exact hb
  exact h b e'' hbind

theorem leads_get {f : σ → StateT σ (Except Fault) β} (h : Leads (f e) e R) :
    Leads (get >>= f) e R := h

theorem leads_set {d : σ} {f : PUnit → StateT σ (Except Fault) β} (h : Leads (f ⟨⟩) d R) :
    Leads (set d >>= f) e R := h

theorem leads_modify {f : σ → σ} {P : Unit → σ → Prop} (h : P () (f e)) :
    Leads (modify f) e P := by
  intro a e' ha
  cases ha
  exact h

theorem leads_lift {m : Except Fault α} {f : α → StateT σ (Except Fault) β}
    (h : ∀ a, m = .ok a → Leads (f a) e R) :
    Leads ((liftM m : StateT σ (Except Fault) α) >>= f) e R := by
  cases m with
  | error g => exact fun _ _ h => nomatch h
  | ok a => exact h a rfl

/-- What every round of a loop keeps, the loop keeps. -/
theorem leads_forM_mem {γ : Type} {f : γ → StateT σ (Except Fault) Unit} {I : σ → Prop}
    (as : List γ) (hstep : ∀ a ∈ as, ∀ e, I e → Leads (f a) e fun _ e' => I e') (h : I e) :
    Leads (as.forM f) e fun _ e' => I e' := by
  induction as generalizing e with
  | nil => exact leads_pure h
  | cons a as ih =>
    refine leads_bind ((hstep a List.mem_cons_self e h).mono fun _ e' h' => ?_)
    exact ih (fun b hb => hstep b (List.mem_cons_of_mem a hb)) h'

theorem leads_forM {γ : Type} {f : γ → StateT σ (Except Fault) Unit} {I : σ → Prop}
    (hstep : ∀ a e, I e → Leads (f a) e fun _ e' => I e') (as : List γ) (h : I e) :
    Leads (as.forM f) e fun _ e' => I e' :=
  leads_forM_mem as (fun a _ e h => hstep a e h) h

theorem completes_pure (a : α) (e : σ) :
    Completes (pure a : StateT σ (Except Fault) α) e := ⟨a, e, rfl⟩

theorem completes_bind {f : α → StateT σ (Except Fault) β} (h : Completes op e)
    (hf : Leads op e fun a e' => Completes (f a) e') : Completes (op >>= f) e := by
  obtain ⟨a, e', ha⟩ := h
  obtain ⟨b, e'', hb⟩ := hf a e' ha
  refine ⟨b, e'', ?_⟩
  show (op e >>= fun p => f p.1 p.2) = _
  rw [ha]
  exact hb

theorem completes_get {f : σ → StateT σ (Except Fault) β} (h : Completes (f e) e) :
    Completes (get >>= f) e := h

theorem completes_set {d : σ} {f : PUnit → StateT σ (Except Fault) β} (h : Completes (f ⟨⟩) d) :
    Completes (set d >>= f) e := h

theorem completes_lift {m : Except Fault α} {a : α} {f : α → StateT σ (Except Fault) β}
    (hm : m = .ok a) (h : Completes (f a) e) :
    Completes ((liftM m : StateT σ (Except Fault) α) >>= f) e := by
  rw [hm]
  exact h

theorem completes_modify (f : σ → σ) (e : σ) :
    Completes (modify f : StateT σ (Except Fault) Unit) e :=
  ⟨(), f e, rfl⟩

theorem completes_modify_bind {f : σ → σ} {g : Unit → StateT σ (Except Fault) β}
    (h : Completes (g ()) (f e)) : Completes (modify f >>= g) e := h

/-- A loop succeeds if every round does, given what the rounds before it keep. -/
theorem completes_forM {γ : Type} {f : γ → StateT σ (Except Fault) Unit} {I : σ → Prop}
    (as : List γ) (hf : ∀ a ∈ as, ∀ e, I e → Completes (f a) e)
    (hstep : ∀ a e, I e → Leads (f a) e fun _ e' => I e') (h : I e) :
    Completes (as.forM f) e := by
  induction as generalizing e with
  | nil => exact completes_pure _ _
  | cons a as ih =>
    refine completes_bind (hf a List.mem_cons_self e h) ((hstep a e h).mono fun _ e' h' => ?_)
    exact ih (fun b hb => hf b (List.mem_cons_of_mem a hb)) h'

theorem Yields.mono {P' : α → σ → Prop} (h : Yields op e P) (hP : ∀ a e', P a e' → P' a e') :
    Yields op e P' := by
  obtain ⟨a, e', ha, h⟩ := h
  exact ⟨a, e', ha, hP a e' h⟩

theorem Completes.yields (h : Completes op e) (hP : Leads op e P) : Yields op e P := by
  obtain ⟨a, e', ha⟩ := h
  exact ⟨a, e', ha, hP a e' ha⟩

/-- An operation that succeeds has one outcome. -/
theorem Yields.leads (h : Yields op e P) : Leads op e P := by
  obtain ⟨a, e', ha, h⟩ := h
  intro b d hb
  cases ha.symm.trans hb
  exact h

/-- An outcome that has been evaluated in part. -/
theorem leads_of_eval {γ : Type} {f : α × σ → γ} {v : γ} (h : (op e).toOption.map f = some v) :
    Leads op e fun a e' => f (a, e') = v := by
  intro a e' ha
  rw [ha] at h
  exact Option.some.inj h

theorem Yields.and_leads {P' : α → σ → Prop} (h : Yields op e P) (h' : Leads op e P') :
    Yields op e fun a e' => P a e' ∧ P' a e' := by
  obtain ⟨a, e', ha, h⟩ := h
  exact ⟨a, e', ha, h, h' a e' ha⟩

theorem yields_pure {a : α} (h : P a e) : Yields (pure a) e P := ⟨a, e, rfl, h⟩

theorem yields_bind {f : α → StateT σ (Except Fault) β}
    (h : Yields op e fun a e' => Yields (f a) e' R) : Yields (op >>= f) e R := by
  obtain ⟨a, e', ha, b, e'', hb, h⟩ := h
  refine ⟨b, e'', ?_, h⟩
  show (op e >>= fun p => f p.1 p.2) = _
  rw [ha]
  exact hb

theorem yields_get {f : σ → StateT σ (Except Fault) β} (h : Yields (f e) e R) :
    Yields (get >>= f) e R := h

theorem yields_set {d : σ} {f : PUnit → StateT σ (Except Fault) β} (h : Yields (f ⟨⟩) d R) :
    Yields (set d >>= f) e R := h

theorem yields_modify {f : σ → σ} {P : Unit → σ → Prop} (h : P () (f e)) :
    Yields (modify f) e P := ⟨(), f e, rfl, h⟩

/-- A loop succeeds and keeps what every round keeps. -/
theorem yields_forM {γ : Type} {f : γ → StateT σ (Except Fault) Unit} {I : σ → Prop}
    (as : List γ) (hf : ∀ a ∈ as, ∀ e, I e → Yields (f a) e fun _ e' => I e') (h : I e) :
    Yields (as.forM f) e fun _ e' => I e' := by
  induction as generalizing e with
  | nil => exact yields_pure h
  | cons a as ih =>
    refine yields_bind ((hf a List.mem_cons_self e h).mono fun _ e' h' => ?_)
    exact ih (fun b hb => hf b (List.mem_cons_of_mem a hb)) h'

theorem yields_lift {m : Except Fault α} {a : α} {f : α → StateT σ (Except Fault) β}
    (hm : m = .ok a) (h : Yields (f a) e R) :
    Yields ((liftM m : StateT σ (Except Fault) α) >>= f) e R := by
  rw [hm]
  exact h

theorem Completes.secure (h : Completes op e) (hP : Leads op e P) : Secure op e P := by
  obtain ⟨a, e', ha⟩ := h
  exact ⟨by rw [ha]; exact harmless_ok _, hP⟩

theorem Secure.mono {P' : α → σ → Prop} (h : Secure op e P) (hP : ∀ a e', P a e' → P' a e') :
    Secure op e P' :=
  ⟨h.supplied, h.leads.mono hP⟩

theorem Secure.and_leads {P' : α → σ → Prop} (h : Secure op e P) (h' : Leads op e P') :
    Secure op e fun a e' => P a e' ∧ P' a e' :=
  ⟨h.supplied, h.leads.and h'⟩

theorem secure_pure {a : α} (h : P a e) : Secure (pure a) e P :=
  ⟨harmless_ok _, leads_pure h⟩

theorem secure_bind {f : α → StateT σ (Except Fault) β}
    (h : Secure op e fun a e' => Secure (f a) e' R) : Secure (op >>= f) e R := by
  refine ⟨?_, leads_bind (h.leads.mono fun _ _ h' => h'.leads)⟩
  show Harmless (op e >>= fun p => f p.1 p.2)
  cases hop : op e with
  | error g => exact harmless_error (h.supplied g hop)
  | ok p => exact (h.leads p.1 p.2 hop).supplied

theorem secure_get {f : σ → StateT σ (Except Fault) β} (h : Secure (f e) e R) :
    Secure (get >>= f) e R := ⟨h.supplied, h.leads⟩

theorem secure_set {d : σ} {f : PUnit → StateT σ (Except Fault) β} (h : Secure (f ⟨⟩) d R) :
    Secure (set d >>= f) e R := ⟨h.supplied, h.leads⟩

theorem secure_modify {f : σ → σ} {P : Unit → σ → Prop} (h : P () (f e)) :
    Secure (modify f) e P :=
  ⟨harmless_ok _, leads_modify h⟩

theorem secure_lift {m : Except Fault α} {f : α → StateT σ (Except Fault) β}
    (hm : Harmless m) (h : ∀ a, m = .ok a → Secure (f a) e R) :
    Secure ((liftM m : StateT σ (Except Fault) α) >>= f) e R := by
  cases m with
  | error g => exact ⟨harmless_error (hm g rfl), fun _ _ h => nomatch h⟩
  | ok a => exact h a rfl

theorem secure_forM_mem {γ : Type} {f : γ → StateT σ (Except Fault) Unit} {I : σ → Prop}
    (as : List γ) (hstep : ∀ a ∈ as, ∀ e, I e → Secure (f a) e fun _ e' => I e') (h : I e) :
    Secure (as.forM f) e fun _ e' => I e' := by
  induction as generalizing e with
  | nil => exact secure_pure h
  | cons a as ih =>
    refine secure_bind ((hstep a List.mem_cons_self e h).mono fun _ e' h' => ?_)
    exact ih (fun b hb => hstep b (List.mem_cons_of_mem a hb)) h'

theorem secure_forM {γ : Type} {f : γ → StateT σ (Except Fault) Unit} {I : σ → Prop}
    (hstep : ∀ a e, I e → Secure (f a) e fun _ e' => I e') (as : List γ) (h : I e) :
    Secure (as.forM f) e fun _ e' => I e' :=
  secure_forM_mem as (fun a _ e h => hstep a e h) h

end Results

/-! ## Small operations of the engine -/

section Operations

variable {α β : Type} {op : EngineM α} {e : Engine} {P : α → Engine → Prop}
  {R : β → Engine → Prop}

theorem After.leads {base : UInt64} {x : Storage} {Q : α → Engine → Storage → Prop}
    (h : After base op e x Q) (hP : ∀ a e' y, Q a e' y → P a e') : Leads op e P := by
  intro a e' ha
  obtain ⟨-, as, -, hQ⟩ := h a e' ha
  obtain ⟨y, hy⟩ := exists_performsAll e.host base as x
  exact hP a e' y (hQ y hy)

theorem leads_emit {a : Action} {P : Unit → Engine → Prop} (h : P () (e.asked a)) :
    Leads (emit a) e P :=
  leads_modify h

theorem leads_violate {v : Violation} : Leads (violate v : EngineM α) e P := fun _ _ h => nomatch h

theorem leads_require {p : Prop} [Decidable p] {v : Violation} {f : Unit → EngineM β}
    (h : ¬ p → Leads (f ()) e R) : Leads (if p then violate v >>= f else f ()) e R := by
  by_cases hp : p
  · rw [if_pos hp]
    exact leads_bind leads_violate
  · rw [if_neg hp]
    exact h hp

theorem leads_requireSlot {s : Slot} {f : Unit → EngineM β} (h : Leads (f ()) e R) :
    Leads (requireSlot s >>= f) e R := by
  unfold requireSlot
  split
  · exact h
  · exact fun _ _ h => nomatch h

theorem leads_requireReg {r : HostReg} {f : Unit → EngineM β} (h : Leads (f ()) e R) :
    Leads (requireReg r >>= f) e R := by
  refine leads_bind (leads_get ?_)
  split
  · exact leads_pure h
  · exact fun _ _ h => nomatch h

theorem completes_emit (a : Action) (e : Engine) : Completes (emit a) e := ⟨(), e.asked a, rfl⟩

theorem completes_emit_bind {a : Action} {f : Unit → EngineM β}
    (h : Completes (f ()) (e.asked a)) : Completes (emit a >>= f) e := h

theorem completes_requireReg {r : HostReg} {f : Unit → EngineM β} (hr : r < e.hosts.size)
    (h : Completes (f ()) e) : Completes (requireReg r >>= f) e := by
  refine completes_bind ?_ ?_
  · refine completes_get ?_
    rw [if_pos hr]
    exact completes_pure _ _
  · refine leads_get ?_
    rw [if_pos hr]
    exact leads_pure h

theorem completes_require {p : Prop} [Decidable p] {v : Violation} {f : Unit → EngineM β}
    (hp : ¬ p) (h : Completes (f ()) e) :
    Completes (if p then violate v >>= f else f ()) e := by
  rw [if_neg hp]
  exact h

theorem completes_requireSlot {s : Slot} {f : Unit → EngineM β} (hs : s < Slot.count)
    (h : Completes (f ()) e) : Completes (requireSlot s >>= f) e := by
  unfold requireSlot
  rw [if_pos hs]
  exact h

theorem completes_lockSlot {s : Slot} {f : Unit → EngineM β} (hs : s < Slot.count)
    (h : Completes (f ()) (e.lock s)) : Completes (lockSlot s >>= f) e := by
  unfold lockSlot requireSlot
  rw [if_pos hs]
  exact h

theorem yields_require {p : Prop} [Decidable p] {v : Violation} {f : Unit → EngineM β}
    (hp : ¬ p) (h : Yields (f ()) e R) : Yields (if p then violate v >>= f else f ()) e R := by
  rw [if_neg hp]
  exact h

theorem yields_requireSlot {s : Slot} {f : Unit → EngineM β} (hs : s < Slot.count)
    (h : Yields (f ()) e R) : Yields (requireSlot s >>= f) e R := by
  unfold requireSlot
  rw [if_pos hs]
  exact h

theorem secure_emit {a : Action} {P : Unit → Engine → Prop} (h : P () (e.asked a)) :
    Secure (emit a) e P :=
  secure_modify h

theorem secure_require {p : Prop} [Decidable p] {v : Violation} {f : Unit → EngineM β}
    (hv : Fault.isExhaustion (.violation v) = false) (h : ¬ p → Secure (f ()) e R) :
    Secure (if p then violate v >>= f else f ()) e R := by
  by_cases hp : p
  · rw [if_pos hp]
    exact ⟨harmless_error hv, leads_bind leads_violate⟩
  · rw [if_neg hp]
    exact h hp

theorem secure_requireSlot {s : Slot} {f : Unit → EngineM β}
    (h : s < Slot.count → Secure (f ()) e R) : Secure (requireSlot s >>= f) e R := by
  unfold requireSlot
  split
  · exact h ‹_›
  · exact ⟨harmless_error rfl, fun _ _ h => nomatch h⟩

theorem secure_requireReg {r : HostReg} {f : Unit → EngineM β} (h : Secure (f ()) e R) :
    Secure (requireReg r >>= f) e R := by
  refine secure_bind (secure_get ?_)
  split
  · exact secure_pure h
  · exact ⟨harmless_error rfl, fun _ _ h => nomatch h⟩

end Operations

end Dynarec.Registers
