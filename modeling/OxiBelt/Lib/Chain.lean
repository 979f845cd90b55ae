import Mathlib.Tactic

/-!
# Runs of a fallible step, and chains that commit to their history

`accept step s xs` feeds the items of `xs` to `step` one after another, and `visited` lists the pairs
of a state and an item that the run goes through.

A chain keeps a position and a digest in its state.  If the digest after a step determines position
and digest before it and the body of the item (`hbind`), then two accepted runs that end at the same
digest went through the same bodies (`bodies_eq_of_digest`).
-/

namespace Chain

open List

variable {σ α β δ ε : Type*}

/-- Items taken one after another, up to the first that is refused. -/
def accept (step : σ → α → Except ε σ) : σ → List α → Except ε σ
  | s, [] => .ok s
  | s, a :: as =>
    match step s a with
    | .ok s' => accept step s' as
    | .error e => .error e

/-- The state before each item that is taken or refused, with the item. -/
def visited (step : σ → α → Except ε σ) : σ → List α → List (σ × α)
  | _, [] => []
  | s, a :: as =>
    (s, a) ::
      match step s a with
      | .ok s' => visited step s' as
      | .error _ => []

section Accept

variable {step : σ → α → Except ε σ} {s s' : σ} {a : α} {as : List α}

theorem accept_cons_eq_ok : accept step s (a :: as) = .ok s' ↔ ∃ m, step s a = .ok m ∧ accept step m as = .ok s' := by
  rw [accept]
  cases step s a with
  | ok m => simp
  | error e => simp

theorem accept_concat_eq_ok :
    accept step s (as ++ [a]) = .ok s' ↔ ∃ m, accept step s as = .ok m ∧ step m a = .ok s' := by
  induction as generalizing s with
  | nil =>
    rw [nil_append, accept_cons_eq_ok]
    simp [accept]
  | cons b bs ih =>
    rw [cons_append, accept_cons_eq_ok]
    constructor
    · rintro ⟨m, hm, h⟩
      obtain ⟨n, hn, ha⟩ := ih.1 h
      exact ⟨n, accept_cons_eq_ok.2 ⟨m, hm, hn⟩, ha⟩
    rintro ⟨n, hn, ha⟩
    obtain ⟨m, hm, hbs⟩ := accept_cons_eq_ok.1 hn
    exact ⟨m, hm, ih.2 ⟨n, hbs, ha⟩⟩

/-- Steps that agree on the items make the same run. -/
theorem accept_congr {step' : σ → α → Except ε σ} (h : ∀ a ∈ as, ∀ s, step s a = step' s a) :
    accept step s as = accept step' s as := by
  induction as generalizing s with
  | nil => rfl
  | cons b bs ih =>
    obtain ⟨hb, hbs⟩ := forall_mem_cons.1 h
    rw [accept, accept, hb s]
    cases step' s b with
    | ok m => exact ih hbs
    | error e => rfl

theorem visited_concat (h : accept step s as = .ok s') :
    visited step s (as ++ [a]) = visited step s as ++ [(s', a)] := by
  induction as generalizing s with
  | nil =>
    cases h
    simp only [nil_append, visited]
    split <;> rfl
  | cons b bs ih =>
    obtain ⟨m, hm, hbs⟩ := accept_cons_eq_ok.1 h
    simp only [cons_append, visited, hm, ih hbs]

end Accept

section Commit

variable {step : σ → α → Except ε σ} (pos : σ → Nat) (digest : σ → δ) (body : α → β)

theorem accept_pos (hp : ∀ s a s', step s a = .ok s' → pos s' = pos s + 1) {s s' : σ} {as : List α}
    (h : accept step s as = .ok s') : pos s' = pos s + as.length := by
  induction as generalizing s with
  | nil =>
    cases h
    rfl
  | cons b bs ih =>
    obtain ⟨m, hm, hbs⟩ := accept_cons_eq_ok.1 h
    have h1 := hp _ _ _ hm
    have h2 := ih hbs
    rw [length_cons]
    omega

/-- The digest after `a` in state `s`, compared with the one after `b` in state `t`, settles what was
there before and what was added. -/
def Binds (step : σ → α → Except ε σ) (x y : σ × α) : Prop :=
  ∀ s' t', step x.1 x.2 = .ok s' → step y.1 y.2 = .ok t' → digest s' = digest t' →
    pos x.1 = pos y.1 ∧ digest x.1 = digest y.1 ∧ body x.2 = body y.2

/-- Two accepted runs that start at one position and end at one position and digest have the same
bodies. -/
theorem bodies_eq (hps : ∀ s a s', step s a = .ok s' → pos s' = pos s + 1) {s t : σ}
    (hst : pos s = pos t) {xs ys : List α} {s' t' : σ}
    (hb : ∀ x ∈ visited step s xs, ∀ y ∈ visited step t ys, Binds pos digest body step x y)
    (hx : accept step s xs = .ok s') (hy : accept step t ys = .ok t') (hp : pos s' = pos t')
    (hd : digest s' = digest t') : xs.map body = ys.map body := by
  have hlx := accept_pos pos hps hx
  have hly := accept_pos pos hps hy
  -- by induction from the end of the run: the last step is undone on both sides
  induction xs using List.reverseRecOn generalizing ys s' t' with
  | nil =>
    simp only [length_nil] at hlx
    have hnl : ys = [] := eq_nil_of_length_eq_zero (by omega)
    rw [hnl]
  | append_singleton xs x ih =>
    rcases eq_nil_or_concat' ys with rfl | ⟨ys, y, rfl⟩
    · simp only [length_append, length_nil, length_singleton] at hlx hly
      omega
    obtain ⟨m, hm, hxm⟩ := accept_concat_eq_ok.1 hx
    obtain ⟨n, hn, hyn⟩ := accept_concat_eq_ok.1 hy
    rw [visited_concat hm, visited_concat hn] at hb
    obtain ⟨hpp, hdd, hbd⟩ := hb (m, x) (by simp) (n, y) (by simp) s' t' hxm hyn hd
    have hr := ih (fun x hx y hy => hb x (by simp [hx]) y (by simp [hy])) hm hn hpp hdd
      (accept_pos pos hps hm) (accept_pos pos hps hn)
    rw [map_append, map_append, hr, map_singleton, map_singleton, hbd]

/-- **Commitment.**  After at least one item on each side, the digest alone settles the bodies. -/
theorem bodies_eq_of_digest (hps : ∀ s a s', step s a = .ok s' → pos s' = pos s + 1) {s t : σ}
    (hst : pos s = pos t) {xs ys : List α} {x y : α} {s' t' : σ}
    (hb : ∀ p ∈ visited step s (xs ++ [x]), ∀ q ∈ visited step t (ys ++ [y]),
      Binds pos digest body step p q)
    (hx : accept step s (xs ++ [x]) = .ok s') (hy : accept step t (ys ++ [y]) = .ok t')
    (hd : digest s' = digest t') : (xs ++ [x]).map body = (ys ++ [y]).map body := by
  obtain ⟨m, hm, hxm⟩ := accept_concat_eq_ok.1 hx
  obtain ⟨n, hn, hyn⟩ := accept_concat_eq_ok.1 hy
  have hmm : (m, x) ∈ visited step s (xs ++ [x]) := by simp [visited_concat hm]
  have hmm' : (n, y) ∈ visited step t (ys ++ [y]) := by simp [visited_concat hn]
  obtain ⟨hpp, -, -⟩ := hb _ hmm _ hmm' s' t' hxm hyn hd
  have hp : pos s' = pos t' := by
    rw [hps _ _ _ hxm, hps _ _ _ hyn, hpp]
  exact bodies_eq pos digest body hps hst hb hx hy hp hd

end Commit

end Chain
