import UvWrapper.Connect.Moves

/-! # The way of a request

From the function that makes it to its execution a request is in one place after the other: with
a thread before `AddReq`, with a thread before the lock, on a handle, with the loop thread. What
is in a place after a step was there before, or one place behind.
-/

namespace UvWrapper.Uvconnect

open Function

variable {w : ℕ} {s s' : Uvconnect} {a : Act} {es : List Event} {req : Req}

/-- Where a request can be. -/
inductive Place
  | caller (t : ℕ)
  | locking (t : ℕ)
  | handle (h : ℕ)
  | body

def At (s : Uvconnect) (req : Req) : Place → Prop
  | .caller t => s.call t = .requesting req
  | .locking t => ∃ e, s.threads.call t = .locking (.addReq e (some req))
  | .handle h => (s.threads.loop.async h).tcb = some req
  | .body => s.body = some req

/-- How a request gets into a place in a step. -/
inductive Comes (s : Uvconnect) (req : Req) : Act → Place → Prop
  | stays (a : Act) (p : Place) : s.At req p → (p = .body → ∀ h, a ≠ .turn (.fire h)) →
      Comes s req a p
  | made (t : ℕ) (f : Api) : (s.begin f).2 = some req → Comes s req (.request t f) (.caller t)
  | submitted (t : ℕ) : s.At req (.caller t) → Comes s req (.addReq t) (.locking t)
  | accepted (t h : ℕ) : s.At req (.locking t) → s.threads.loop.dAsync.head? = some h →
      Comes s req (.lock t) (.handle h)
  | entered (h : ℕ) : s.At req (.handle h) → Comes s req (.turn (.fire h)) .body

variable {p : Place}

theorem At.of_eq (h : s'.At req p) (hc : s'.call = s.call) (ht : s'.threads = s.threads)
    (hb : s'.body = s.body) : s.At req p := by
  cases p <;> simpa only [At, hc, ht, hb] using h

theorem Apart.at (hap : Apart s s') (h : s'.At req p) : s.At req p :=
  h.of_eq hap.call hap.threads hap.body

theorem At.of_call {t : ℕ} {c : Writer} (h : s'.At req p) (hc : s'.call = update s.call t c)
    (hne : c ≠ .requesting req) (ht : s'.threads = s.threads) (hb : s'.body = s.body) :
    s.At req p := by
  cases p with
  | caller u =>
    rw [At, hc] at h
    exact (Update.of_update hne h).2
  | locking | handle | body => simpa only [At, ht, hb] using h

/-- What is in a place after a step inside the loop was there before, or is what the step
submits or accepts. -/
theorem At.of_threads {b : Uvloop.Act Req} {th : Uvloop.Threads Req}
    {les : List (Uvloop.Event Req)} (h : At { s with threads := th } req p)
    (ht : s.threads.step b = some (th, les)) : s.At req p ∨
      (∃ t e, p = .locking t ∧ b = .call t (.addReq e (some req))) ∨
      ∃ t x, p = .handle x ∧ b = .lock t ∧ s.At req (.locking t) ∧
        s.threads.loop.dAsync.head? = some x := by
  cases p with
  | caller | body => exact .inl h
  | locking t =>
    obtain ⟨e, hc⟩ := h
    rcases Uvloop.Threads.step_call ht hc with hc | hb
    · exact .inl ⟨e, hc⟩
    · exact .inr (.inl ⟨t, e, rfl, hb⟩)
  | handle x =>
    rcases Uvloop.Threads.tcb_of_step ht h with hx | ⟨t, e, hb, hc, hd⟩
    · exact .inl hx
    · exact .inr (.inr ⟨t, x, rfl, hb, ⟨e, hc⟩, hd⟩)

/-- The close callback, which adds a request in a place of its own, is kept out of this. -/
theorem At.step (h : s'.At req p) (hs : s.step w a = some (s', es)) (hr : s.bReconect = false)
    (hw : ∀ r, req ≠ .tcpWrite r) : Comes s req a p := by
  cases step_cases hs with
  | registerConnect | registerloopAndStream | setEventHandler | setIPAndAddr | rejected
  | requestRejected | obtainFault | fillFault | addReqFault =>
    exact .stays _ _ (h.of_eq rfl rfl rfl) nofun
  | checked t buf => exact .stays _ _ (h.of_call (t := t) rfl nofun rfl rfl) nofun
  | obtained t ma buf r s₁ _ ht =>
    obtain ⟨hth, -, hb, -⟩ := takeSend_threads ht
    exact .stays _ _ (h.of_call (t := t) (c := .obtained r buf) rfl nofun hth hb) nofun
  | filled t ma re r buf b ok =>
    have hne : Writer.requesting (.tcpWrite r) ≠ .requesting req :=
      fun he => hw r (Writer.requesting.inj he).symm
    exact .stays _ _ (h.of_call (t := t) rfl hne rfl rfl) nofun
  | requesting t f s₁ req' _ hb =>
    obtain ⟨hap, -⟩ := begin_cases hb
    rcases eq_or_ne req' req with rfl | hne
    · cases p with
      | caller u =>
        rcases eq_or_ne u t with rfl | hut
        · exact .made u f (by rw [hb])
        · refine .stays _ _ ?_ nofun
          simpa [At, hut] using h
      | locking | handle | body => exact .stays _ _ (hap.at h) nofun
    · refine .stays _ _ (hap.at (h.of_call (t := t) (c := .requesting req') ?_ ?_ rfl rfl)) nofun
      · rw [hap.call]
      · exact fun he => hne (Writer.requesting.inj he)
  | loop a b th les hl ht =>
    rcases h.of_threads ht with h | ⟨t, e, -, rfl⟩ | ⟨t, x, -, rfl, -⟩
    · refine .stays _ _ h fun _ => ?_
      cases hl <;> nofun
    · cases hl
    · cases hl
  | addReq t req' th les hc ht =>
    have hbefore : At { s with threads := th } req p :=
      h.of_call (t := t) (c := .idle) rfl nofun rfl rfl
    rcases hbefore.of_threads ht with h | ⟨u, e, rfl, he⟩ | ⟨u, x, -, he, -⟩
    · exact .stays _ _ h nofun
    · injection he with hu hf
      injection hf with _ hf
      obtain rfl := Option.some.inj hf
      exact hu ▸ .submitted t hc
    · cases he
  | lock t th les ht =>
    rcases h.of_threads ht with h | ⟨u, e, -, he⟩ | ⟨u, x, rfl, he, hl, hd⟩
    · exact .stays _ _ h nofun
    · cases he
    · cases he
      exact .accepted t x hl hd
  | turn b th les ht =>
    have hinside : At { s with threads := th } req p → s.At req p := by
      intro h
      rcases h.of_threads ht with h | ⟨u, e, -, he⟩ | ⟨u, x, -, he, -⟩
      · exact h
      · cases he
      · cases he
    cases p with
    | caller | locking | handle => exact .stays _ _ (hinside h) nofun
    | body =>
      rcases nextBody_cases h with ⟨x, y, rfl, -, hx⟩ | ⟨hne, hb⟩
      · exact .entered x hx
      · exact .stays _ .body hb fun _ x he => hne x (Act.turn.inj he)
  | perform req' err hb =>
    obtain ⟨hth, hc, hbody⟩ := (perform_cases { s with body := none } req' err).threads
    have hbefore := h.of_eq hc hth hbody
    cases p with
    | caller | locking | handle => exact .stays _ _ hbefore nofun
    | body => cases hbefore
  | connectCb h' status => exact .stays _ _ ((apart_connected s h' status).1.at h) nofun
  | readCb h' nread => exact .stays _ _ ((readDone_cases s nread).apart.1.at h) nofun
  | writeCb r status =>
    unfold written at h
    split at h <;> exact .stays _ _ (h.of_eq rfl rfl rfl) nofun
  | closeCb x =>
    obtain ⟨hc, hb, hth⟩ := (closed_cases s x).threads
    exact .stays _ _ (h.of_eq hc (hth hr) hb) nofun

end UvWrapper.Uvconnect
