/-
  NodeGen.File.Script — file work as data: a script is a sequence of calls, each of which may depend
  on the answers to those before it.

  `run` plays a script on a world; `worlds` lists the worlds it passes through, one after each call,
  so that a statement can speak about every moment of a run. `run_bind` and `worlds_bind` say that a
  script played in two parts is played as one.
-/

import NodeGen.File.World

namespace NodeGen

open Text (Bytes)

inductive Call : Type → Type where
  /-- A fresh random suffix. -/
  | draw : Call Suffix
  | workingDirectory : Call Location
  | umask : Call Nat
  | stat (p : Path) : Call (Except Refusal Nat)
  | read (p : Path) : Call (Except Refusal Bytes)
  /-- A new file that only its owner may use. -/
  | create (p : Path) : Call (Except Refusal Unit)
  | write (p : Path) (content : Bytes) : Call (Except Refusal Unit)
  | chmod (p : Path) (mode : Nat) : Call (Except Refusal Unit)
  | rename (old new : Path) : Call (Except Refusal Unit)
  | unlink (p : Path) : Call (Except Refusal Unit)

def privateMode : Nat := 0o600

namespace World

/-- A refused change leaves the world as it was. -/
def attempt (w : World) : Except Refusal World → Except Refusal Unit × World
  | .ok w' => (.ok (), w')
  | .error r => (.error r, w)

def perform (w : World) : {α : Type} → Call α → α × World
  | _, .draw => (w.suffixes w.drawn, { w with drawn := w.drawn + 1 })
  | _, .workingDirectory => (w.cwd, w)
  | _, .umask => (w.umask, w)
  | _, .stat p => (w.stat (Route.ofPath p), w)
  | _, .read p => (w.read (Route.ofPath p), w)
  | _, .create p => w.attempt (w.create (Route.ofPath p) privateMode)
  | _, .write p content => w.attempt (w.write (Route.ofPath p) content)
  | _, .chmod p mode => w.attempt (w.chmod (Route.ofPath p) mode)
  | _, .rename old new => w.attempt (w.rename (Route.ofPath old) (Route.ofPath new))
  | _, .unlink p => w.attempt (w.unlink (Route.ofPath p))

end World

inductive Script (α : Type) : Type 1 where
  | done (a : α)
  | call {β : Type} (c : Call β) (next : β → Script α)

namespace Script

variable {α β : Type}

def bind : Script α → (α → Script β) → Script β
  | .done a, f => f a
  | .call c next, f => .call c fun b => bind (next b) f

instance : Monad Script where
  pure := Script.done
  bind := Script.bind

def ask (c : Call α) : Script α := .call c .done

def run : Script α → World → α × World
  | .done a, w => (a, w)
  | .call c next, w => run (next (w.perform c).1) (w.perform c).2

def worlds : Script α → World → List World
  | .done _, _ => []
  | .call c next, w => (w.perform c).2 :: worlds (next (w.perform c).1) (w.perform c).2

@[simp] theorem run_pure (a : α) (w : World) : (pure a : Script α).run w = (a, w) := rfl

@[simp] theorem run_ask (c : Call α) (w : World) : (ask c).run w = w.perform c := rfl

@[simp] theorem worlds_pure (a : α) (w : World) : (pure a : Script α).worlds w = [] := rfl

@[simp] theorem worlds_ask (c : Call α) (w : World) : (ask c).worlds w = [(w.perform c).2] := rfl

@[simp] theorem run_bind (s : Script α) (f : α → Script β) (w : World) :
    (s >>= f).run w = (f (s.run w).1).run (s.run w).2 := by
  show (Script.bind s f).run w = _
  induction s generalizing w with
  | done a => rfl
  | call c next ih => exact ih _ _

@[simp] theorem worlds_bind (s : Script α) (f : α → Script β) (w : World) :
    (s >>= f).worlds w = s.worlds w ++ (f (s.run w).1).worlds (s.run w).2 := by
  show (Script.bind s f).worlds w = _
  induction s generalizing w with
  | done a => rfl
  | call c next ih => exact congrArg (_ :: ·) (ih _ _)

theorem bind_done (s : Script α) : s.bind Script.done = s := by
  induction s with
  | done a => rfl
  | call c next ih => exact congrArg (Script.call c) (funext fun b => ih b)

theorem bind_assoc {γ : Type} (s : Script α) (f : α → Script β) (g : β → Script γ) :
    (s.bind f).bind g = s.bind fun a => (f a).bind g := by
  induction s with
  | done a => rfl
  | call c next ih => exact congrArg (Script.call c) (funext fun b => ih b)

instance : LawfulMonad Script :=
  LawfulMonad.mk' Script (fun s => bind_done s) (fun _ _ => rfl) (fun s f g => bind_assoc s f g)

end Script

end NodeGen
