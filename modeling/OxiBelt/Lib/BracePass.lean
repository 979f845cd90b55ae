import OxiBelt.Lib.Bytes

/-!
# Rewriting groups in braces, pass by pass

A text is a list of pieces: letters, and the groups `o body c` that are to be replaced.  A `Pass` is a
function that reads a text from left to right and rewrites it at some places: `value` says by what it
replaces a group, `starts` at which texts it rewrites anything at all.

Run one after another (`runAll_render`), the passes replace each group by the value of the first pass
that knows it, as long as no pass rewrites a place that is not one of the groups (`untouched`).
-/

namespace BracePass

open List

variable {α : Type*} (o c : α)

/-- A letter, or a group whose body has no closing brace. -/
inductive Piece where
  | letter (x : α)
  | group (body : List α) (closed : c ∉ body)

/-- A function over texts, what it puts for a group and where it puts anything. -/
structure Pass (α : Type*) where
  rewrite : List α → List α
  value : List α → Option (List α)
  starts : List α → Bool

variable {c}

/-- A piece with the groups that `g` knows replaced. -/
def Piece.render (g : List α → Option (List α)) : Piece c → List α
  | .letter x => [x]
  | .group body _ => (g body).getD (o :: (body ++ [c]))

def renderAll (g : List α → Option (List α)) (pieces : List (Piece c)) : List α :=
  pieces.flatMap (Piece.render o g)

/-- What a pass that puts `g` copies of a piece that stands there with `done` replaced. -/
def Piece.copied (g done : List α → Option (List α)) : Piece c → List α
  | .letter x => [x]
  | .group body closed =>
    if (done body).isNone ∧ (g body).isSome then [] else Piece.render o done (.group body closed)

/-- The pass rewrites nothing in the text but groups it has a value for. -/
def untouched (pass : Pass α) (done : List α → Option (List α)) : List (Piece c) → Bool
  | [] => true
  | piece :: pieces =>
    (piece.copied o pass.value done).tails.all (fun s => s.isEmpty || !pass.starts (s ++ renderAll o done pieces))
      && untouched pass done pieces

/-- The same for each pass over the text that the passes before it leave. -/
def allUntouched (pieces : List (Piece c)) : (List α → Option (List α)) → List (Pass α) → Bool
  | _, [] => true
  | done, pass :: passes =>
    untouched o pass done pieces && allUntouched pieces (fun body => (done body).or (pass.value body)) passes

variable (c) in
/-- The function copies where the pass does not start and replaces the groups it has a value for. -/
structure Pass.Lawful (pass : Pass α) : Prop where
  nil : pass.rewrite [] = []
  copy : ∀ x s, pass.starts (x :: s) = false → pass.rewrite (x :: s) = x :: pass.rewrite s
  hit : ∀ body v s, c ∉ body → pass.value body = some v →
    pass.rewrite (o :: (body ++ c :: s)) = v ++ pass.rewrite s

variable {o} {pass : Pass α}

theorem Pass.Lawful.copies (hp : pass.Lawful o c) {t : List α} : ∀ {v : List α},
    (v.tails.all fun s => s.isEmpty || !pass.starts (s ++ t)) = true →
    pass.rewrite (v ++ t) = v ++ pass.rewrite t
  | [], _ => rfl
  | x :: v, h => by
    simp only [tails, all_cons, isEmpty_cons, Bool.false_or, Bool.and_eq_true, Bool.not_eq_true', cons_append] at h
    rw [cons_append, hp.copy x _ h.1, hp.copies h.2, cons_append]

/-- **A pass over a text that earlier passes have rewritten.** -/
theorem Pass.Lawful.renderAll (hp : pass.Lawful o c) {done : List α → Option (List α)} :
    ∀ {pieces : List (Piece c)}, untouched o pass done pieces = true →
    pass.rewrite (renderAll o done pieces) =
      BracePass.renderAll o (fun body => (done body).or (pass.value body)) pieces
  | [], _ => hp.nil
  | piece :: pieces, h => by
    rw [untouched, Bool.and_eq_true] at h
    have ih := hp.renderAll h.2
    have hcp := hp.copies h.1
    unfold BracePass.renderAll at ih hcp ⊢
    rw [flatMap_cons, flatMap_cons, ← ih]
    rcases piece with x | ⟨body, closed⟩
    · exact hcp
    rcases hd : done body with _ | v
    · rcases hg : pass.value body with _ | v
      · simpa [Piece.copied, Piece.render, hd, hg] using hcp
      · simpa [Piece.render, hd, hg] using hp.hit body v _ closed hg
    · simpa [Piece.copied, Piece.render, hd] using hcp

/-- **The passes one after another.** -/
theorem runAll_render {pieces : List (Piece c)} : ∀ {passes : List (Pass α)} {done : List α → Option (List α)},
    (∀ pass ∈ passes, pass.Lawful o c) → allUntouched o pieces done passes = true →
    passes.foldl (fun s pass => pass.rewrite s) (renderAll o done pieces) =
      renderAll o (fun body => (done body).or (passes.findSome? (·.value body))) pieces
  | [], done, _, _ => by simp
  | pass :: passes, done, hp, h => by
    rw [allUntouched, Bool.and_eq_true] at h
    rw [foldl_cons, (hp pass mem_cons_self).renderAll h.1,
      runAll_render (fun p hm => hp p (mem_cons_of_mem _ hm)) h.2]
    congr 1
    funext body
    rw [findSome?_cons, Option.or_assoc]
    rcases pass.value body with _ | v <;> rfl

end BracePass
