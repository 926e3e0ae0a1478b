import OrbsNetwork.Lib.Lts
import Mathlib.Logic.Function.Basic
import Mathlib.Data.List.Basic
/-!
# Soup — nodes that send messages to one another

A node has a state of its own, works on it by itself, and receives messages; `sent` is everything that it has sent so far.
A delivery takes any message that some node has sent and gives it to any node, so a message may be lost, come late, come
again, or come to somebody else.

`inv` is the rule for what holds of the nodes and of the messages at once.  `Leads` is what can be made of a state with
actions of a kind; the work of one node carries over to it (`leads_work`).
-/
namespace Lts

variable {σ α : Type*} (step : σ → α → Option σ)

/-- Some run of actions of the kind leads from the one state to the other. -/
def Leads (A : α → Prop) (s t : σ) : Prop := ∃ as, (∀ a ∈ as, A a) ∧ run step s as = some t

variable {step} {A : α → Prop} {s t u : σ}

theorem Leads.refl (s : σ) : Leads step A s s := ⟨[], nofun, rfl⟩

theorem leads_of_step {a : α} (ha : A a) (h : step s a = some t) : Leads step A s t := by
  refine ⟨[a], fun b hb => ?_, ?_⟩
  · rw [List.mem_singleton.1 hb]
    exact ha
  · rw [run, h]
    rfl

theorem Leads.trans (h : Leads step A s t) (h' : Leads step A t u) : Leads step A s u := by
  obtain ⟨as, ha, hr⟩ := h
  obtain ⟨bs, hb, hr'⟩ := h'
  refine ⟨as ++ bs, fun a hm => (List.mem_append.1 hm).elim (ha a) (hb a), ?_⟩
  rw [run_append, hr]
  exact hr'

theorem Leads.mono {B : α → Prop} (hAB : ∀ a, A a → B a) (h : Leads step A s t) : Leads step B s t := by
  obtain ⟨as, ha, hr⟩ := h
  exact ⟨as, fun a hm => hAB a (ha a hm), hr⟩

/-- **Where a run leads, an invariant of the actions of its kind still holds.** -/
theorem Leads.inv {I : σ → Prop} (hstep : ∀ s a s', I s → A a → step s a = some s' → I s') (h : Leads step A s t)
    (hs : I s) : I t := by
  obtain ⟨as, ha, hr⟩ := h
  refine run_inv (G := fun _ a => A a) hstep hs ?_ hr
  exact meets_of_mem (meets_of_forall (fun _ _ => trivial) as s) fun _ a hm (_ : True) => ha a hm

/-- **What can be reached one by one and then stays can be reached together.** -/
theorem leads_forall {ι : Type*} {R : σ → σ → Prop} {Q : ι → σ → Prop} (htrans : ∀ {s t u}, R s t → R t u → R s u)
    (hstay : ∀ i s t, R s t → Q i s → Q i t) (hs : R s s) : ∀ {l : List ι},
    (∀ i ∈ l, ∀ t, R s t → ∃ u, Leads step A t u ∧ R t u ∧ Q i u) → ∃ t, Leads step A s t ∧ R s t ∧ ∀ i ∈ l, Q i t := by
  intro l
  induction l with
  | nil => exact fun _ => ⟨s, .refl s, hs, fun i hi => absurd hi List.not_mem_nil⟩
  | cons i l ih =>
    intro hone
    obtain ⟨t, ht, hst, hall⟩ := ih fun j hj => hone j (List.mem_cons_of_mem _ hj)
    obtain ⟨u, hu, htu, hi⟩ := hone i List.mem_cons_self t hst
    refine ⟨u, ht.trans hu, htrans hst htu, fun j hj => ?_⟩
    rcases List.mem_cons.1 hj with rfl | hj
    · exact hi
    · exact hstay j t u htu (hall j hj)

/-- **A system that a larger one does the steps of.** -/
theorem Leads.embed {τ β : Type*} {step' : τ → β → Option τ} {B : β → Prop} {f : σ → τ}
    (hstep : ∀ s a s', A a → step s a = some s' → ∃ b, B b ∧ step' (f s) b = some (f s')) (h : Leads step A s t) :
    Leads step' B (f s) (f t) := by
  obtain ⟨as, ha, hr⟩ := h
  induction as generalizing s with
  | nil =>
    cases hr
    exact .refl _
  | cons a as ih =>
    obtain ⟨u, hu, hr⟩ := run_cons hr
    obtain ⟨b, hb, hu'⟩ := hstep s a u (ha a List.mem_cons_self) hu
    exact (leads_of_step hb hu').trans (ih (fun c hc => ha c (List.mem_cons_of_mem _ hc)) hr)

end Lts

structure Soup (ν σ π α : Type*) where
  /-- What a node does by itself. -/
  work : ν → σ → α → Option σ
  receive : ν → σ → π → σ
  sent : ν → σ → List π

namespace Soup

variable {ν σ π α : Type*}

inductive Action (ν α : Type*) where
  | work (node : ν) (a : α)
  /-- The message that the sender has sent as its `k`-th. -/
  | deliver (sender receiver : ν) (k : ℕ)

variable [DecidableEq ν] (S : Soup ν σ π α)

def step (s : ν → σ) : Action ν α → Option (ν → σ)
  | .work node a => (S.work node (s node) a).map (Function.update s node)
  | .deliver sender receiver k => (S.sent sender (s sender))[k]?.map fun message =>
      Function.update s receiver (S.receive receiver (s receiver) message)

/-- A condition on the work of the nodes. -/
def Guard (G : ν → σ → α → Prop) (s : ν → σ) : Action ν α → Prop
  | .work node a => G node (s node) a
  | .deliver _ _ _ => True

variable {S} {s s' : ν → σ} {I : ν → σ → Prop} {M : π → Prop} {G : ν → σ → α → Prop}

theorem step_work {node : ν} {a : α} : S.step s (.work node a) = some s' ↔
    ∃ t, S.work node (s node) a = some t ∧ s' = Function.update s node t := by
  rw [step, Option.map_eq_some_iff]
  exact exists_congr fun t => and_congr_right fun _ => eq_comm

theorem step_deliver {sender receiver : ν} {k : ℕ} : S.step s (.deliver sender receiver k) = some s' ↔
    ∃ message, (S.sent sender (s sender))[k]? = some message ∧
      s' = Function.update s receiver (S.receive receiver (s receiver) message) := by
  rw [step, Option.map_eq_some_iff]
  exact exists_congr fun t => and_congr_right fun _ => eq_comm

theorem forall_update (h : ∀ node, I node (s node)) {node : ν} {t : σ} (ht : I node t) :
    ∀ n, I n (Function.update s node t n) := by
  intro n
  rcases eq_or_ne n node with rfl | hn
  · rwa [Function.update_self]
  · rw [Function.update_of_ne hn]
    exact h n

theorem inv_step (hwork : ∀ node s a s', I node s → G node s a → S.work node s a = some s' → I node s')
    (hreceive : ∀ node s message, I node s → M message → I node (S.receive node s message))
    (hsent : ∀ node s message, I node s → message ∈ S.sent node s → M message) {a : Action ν α}
    (hs : ∀ node, I node (s node)) (hg : Guard G s a) (h : S.step s a = some s') : ∀ node, I node (s' node) := by
  cases a with
  | work node a =>
    obtain ⟨t, ht, rfl⟩ := step_work.1 h
    exact forall_update hs (hwork node _ a t (hs node) hg ht)
  | deliver sender receiver k =>
    obtain ⟨message, hm, rfl⟩ := step_deliver.1 h
    exact forall_update hs
      (hreceive receiver _ message (hs receiver) (hsent sender _ message (hs sender) (List.mem_of_getElem? hm)))

/-- **What every node keeps, if every message it receives is as the messages it sends, all of them keep.** -/
theorem inv (hwork : ∀ node s a s', I node s → G node s a → S.work node s a = some s' → I node s')
    (hreceive : ∀ node s message, I node s → M message → I node (S.receive node s message))
    (hsent : ∀ node s message, I node s → message ∈ S.sent node s → M message) {as : List (Action ν α)}
    (hs : ∀ node, I node (s node)) (hg : Lts.Meets S.step (Guard G) s as) (hr : Lts.run S.step s as = some s') :
    ∀ node, I node (s' node) :=
  Lts.run_inv (fun _ _ _ => inv_step hwork hreceive hsent) hs hg hr

/-- **The work of one node is a run of all of them.** -/
theorem leads_work {A : Action ν α → Prop} {B : α → Prop} {node : ν} {t : σ} (hA : ∀ a, B a → A (.work node a))
    (h : Lts.Leads (S.work node) B (s node) t) : Lts.Leads S.step A s (Function.update s node t) := by
  have hembed : Lts.Leads S.step A (Function.update s node (s node)) (Function.update s node t) := by
    refine h.embed (f := Function.update s node) fun u a u' ha hu => ⟨.work node a, hA a ha, step_work.2 ⟨u', ?_, ?_⟩⟩
    · rwa [Function.update_self]
    · rw [Function.update_idem]
  rwa [Function.update_eq_self] at hembed

/-- What has been sent can be delivered. -/
theorem leads_deliver {A : Action ν α → Prop} {sender receiver : ν} {message : π}
    (hA : ∀ k, A (.deliver sender receiver k)) (h : message ∈ S.sent sender (s sender)) :
    Lts.Leads S.step A s (Function.update s receiver (S.receive receiver (s receiver) message)) := by
  obtain ⟨k, hk⟩ := List.mem_iff_getElem?.1 h
  exact Lts.leads_of_step (hA k) (step_deliver.2 ⟨message, hk, rfl⟩)

end Soup
