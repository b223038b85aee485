/-
# Whom a halt is to blame on

Boot code checks most of what the platform answers, and relies on a few
promises without a check: a mapping or a window has the length that was asked
for, and the trusted carveout ends at an address.  An answer that breaks one of
them is a `Fault`, and leads to one kind of halt:

| promise that is broken | halt |
| --- | --- |
| a mapping of the flash is no longer than asked | `indexOutOfBounds` |
| a window is no shorter than asked | `indexOutOfBounds` |
| a window for a table is as long as asked | `lengthMismatch` |
| the trusted carveout ends within the 64-bit words | `overflow` |

`HaltsOnly own` says of boot code that each of its halts is either of the kind
`own`, which it brings about by itself, or follows a fault.  The statements
follow the ways in which boot code is put together, like those about what it
asks.
-/

import BootHandoff.Proofs.Platform.Asks
import BootHandoff.Proofs.SecureOs.Extent

namespace BootHandoff
namespace Platform

variable {σ τ ε ε' α β : Type} {own : Halt → Prop} {step : Step} {h : Halt}

/-- An answer that breaks a promise of the platform, and the halt that it can
lead to. -/
inductive Fault : Step → Halt → Prop where
  | mapping {offset len : UInt32} {shown : Bytes} (h : len.toNat < shown.length) :
      Fault ⟨.mapFlash offset len, .ok shown⟩ .indexOutOfBounds
  | window {base len : UInt64} {held : Bytes} (h : held.length < len.toNat) :
      Fault ⟨.window base len, .ok held⟩ .indexOutOfBounds
  | table {base len : UInt64} {held : Bytes} (h : held.length ≠ len.toNat) :
      Fault ⟨.window base len, .ok held⟩ .lengthMismatch
  | carveout {tz : Memory.MibRange} (h : 2 ^ 64 ≤ tz.finish) :
      Fault ⟨.carveout .tz, .ok tz⟩ .overflow

/-- An answer that keeps the promises: a mapping or a window has exactly the
length that was asked for, and the trusted carveout ends within the 64-bit
words. -/
def Step.Exact : Step → Prop
  | ⟨.mapFlash _ len, .ok shown⟩ => shown.length = len.toNat
  | ⟨.window _ len, .ok held⟩ => held.length = len.toNat
  | ⟨.carveout .tz, .ok tz⟩ => tz.finish < 2 ^ 64
  | _ => True

/-- An answer that keeps the promise about mappings: one of the flash has exactly
the length that was asked for. -/
def Step.MapsExactly : Step → Prop
  | ⟨.mapFlash _ len, .ok shown⟩ => shown.length = len.toNat
  | _ => True

theorem Step.Exact.mapsExactly (h : step.Exact) : step.MapsExactly := by
  obtain ⟨q, answer⟩ := step
  cases q with
  | mapFlash offset len =>
    cases answer with
    | ok shown => exact h
    | error e => trivial
  | _ => trivial

/-- An answer that keeps the promise about windows: one of memory has exactly the
length that was asked for. -/
def Step.WindowsExactly : Step → Prop
  | ⟨.window _ len, .ok held⟩ => held.length = len.toNat
  | _ => True

theorem Step.Exact.windowsExactly (h : step.Exact) : step.WindowsExactly := by
  obtain ⟨q, answer⟩ := step
  cases q with
  | window base len =>
    cases answer with
    | ok held => exact h
    | error e => trivial
  | _ => trivial

theorem Fault.not_exact (hfault : Fault step h) : ¬step.Exact := by
  cases hfault with
  | mapping hlt => exact fun hexact : _ = _ => absurd hexact (Nat.ne_of_gt hlt)
  | window hlt => exact fun hexact : _ = _ => absurd hexact (Nat.ne_of_lt hlt)
  | table hne => exact hne
  | carveout hle => exact Nat.not_lt.2 hle

theorem Fault.ne_assertionFailed (hfault : Fault step h) : h ≠ .assertionFailed := by
  cases hfault <;> nofun

/-- Whatever a task halts with is of the kind `own` or follows a fault. -/
def Task.HaltsOnly (own : Halt → Prop) (t : Task ε α) : Prop :=
  ∀ steps h, t.Path steps (.error (.halt h)) → own h ∨ ∃ step ∈ steps, Fault step h

/-- Whatever an action halts with is of the kind `own` or follows a fault. -/
def Action.HaltsOnly (own : Halt → Prop) (x : Action σ ε α) : Prop :=
  ∀ s steps h t, x.Path s steps (.error (.halt h)) t → own h ∨ ∃ step ∈ steps, Fault step h

/-- A fault stays among the steps when others come before it. -/
theorem blame_append_left {rest : List Step} (first : List Step)
    (hblame : own h ∨ ∃ step ∈ rest, Fault step h) :
    own h ∨ ∃ step ∈ first ++ rest, Fault step h := by
  rcases hblame with hown | ⟨step, hstep, hfault⟩
  · exact .inl hown
  · exact .inr ⟨step, List.mem_append_right first hstep, hfault⟩

namespace Task

theorem haltsOnly_pure (a : α) : (pure a : Task ε α).HaltsOnly own := by
  intro steps h hpath
  obtain ⟨-, ⟨⟩⟩ := path_pure_iff.1 hpath

theorem haltsOnly_fail (e : ε) : (fail e : Task ε α).HaltsOnly own := by
  intro steps h hpath
  obtain ⟨-, ⟨⟩⟩ := path_fail_iff.1 hpath

theorem haltsOnly_check {x : Except Halt α} (hx : ∀ h, x = .error h → own h) :
    (check x : Task ε α).HaltsOnly own := by
  intro steps h hpath
  obtain ⟨-, hend⟩ := path_check_iff.1 hpath
  cases x with
  | ok a => cases hend
  | error h' =>
    obtain rfl := Stop.halt.inj (Except.error.inj hend)
    exact .inl (hx h rfl)

theorem haltsOnly_bind {t : Task ε α} {f : α → Task ε β} (ht : t.HaltsOnly own)
    (hf : ∀ a, (f a).HaltsOnly own) : (t >>= f).HaltsOnly own := by
  intro steps h hpath
  rcases path_bind_iff.1 hpath with ⟨first, rest, a, rfl, hfirst, hrest⟩ | ⟨stop, hfirst, hend⟩
  · exact blame_append_left first (hf a _ _ hrest)
  · obtain rfl := Except.error.inj hend
    exact ht _ _ hfirst

theorem haltsOnly_lift (x : Firmware α) : (liftM x : Task ε α).HaltsOnly own := by
  intro steps h hpath
  obtain ⟨a, -, ⟨⟩⟩ := path_lift_iff.1 hpath

theorem haltsOnly_lift_bind {x : Firmware α} {f : α → Task ε β}
    (hf : ∀ a, (f a).HaltsOnly own) : ((liftM x : Task ε α) >>= f).HaltsOnly own :=
  haltsOnly_bind (haltsOnly_lift x) hf

theorem haltsOnly_widen {wrap : ε → ε'} {t : Task ε α} (ht : t.HaltsOnly own) :
    (t.widen wrap).HaltsOnly own := by
  intro steps h hpath
  obtain ⟨stop, hpath, hend⟩ := path_widen_error_iff.1 hpath
  cases stop with
  | error e => cases hend
  | halt h' =>
    obtain rfl := Stop.halt.inj hend
    exact ht _ _ hpath

end Task

namespace Action

theorem haltsOnly_modify (f : σ → σ) : (modify f : Action σ ε PUnit).HaltsOnly own := by
  intro s steps h t hpath
  obtain ⟨-, ⟨⟩, -⟩ := path_modify_iff.1 hpath

theorem haltsOnly_accept (wrap : ε' → ε) (x : Except ε' α) :
    (accept wrap x : Action σ ε α).HaltsOnly own := by
  intro s steps h t hpath
  obtain ⟨-, hend, -⟩ := path_accept_iff.1 hpath
  cases x <;> cases hend

theorem haltsOnly_bind {x : Action σ ε α} {f : α → Action σ ε β} (hx : x.HaltsOnly own)
    (hf : ∀ a, (f a).HaltsOnly own) : (x >>= f).HaltsOnly own := by
  intro s steps h t hpath
  rcases path_bind_iff.1 hpath with
    ⟨first, rest, a, u, rfl, hfirst, hrest⟩ | ⟨stop, hfirst, hend⟩
  · exact blame_append_left first (hf a _ _ _ _ hrest)
  · obtain rfl := Except.error.inj hend
    exact hx _ _ _ _ hfirst

theorem haltsOnly_get_bind {f : σ → Action σ ε β} (hf : ∀ s, (f s).HaltsOnly own) :
    ((get : Action σ ε σ) >>= f).HaltsOnly own :=
  fun s _ _ _ hpath => hf s _ _ _ _ (path_get_bind_iff.1 hpath)

theorem haltsOnly_lift_bind {x : Firmware α} {f : α → Action σ ε β}
    (hf : ∀ a, (f a).HaltsOnly own) : ((liftM x : Action σ ε α) >>= f).HaltsOnly own := by
  intro s steps h t hpath
  obtain ⟨first, rest, a, rfl, -, hrest⟩ := path_lift_bind_iff.1 hpath
  exact blame_append_left first (hf a _ _ _ _ hrest)

theorem haltsOnly_task {x : Task ε α} (hx : x.HaltsOnly own) :
    (liftM x : Action σ ε α).HaltsOnly own :=
  fun _ _ _ _ hpath => hx _ _ (path_task_iff.1 hpath).1

theorem haltsOnly_focus {get : σ → τ} {put : τ → σ → σ} {x : Action τ ε α}
    (hx : x.HaltsOnly own) : (x.focus get put).HaltsOnly own := by
  intro s steps h t hpath
  obtain ⟨u, hpath, -⟩ := path_focus_iff.1 hpath
  exact hx _ _ _ _ hpath

theorem haltsOnly_attempt {x : Action σ ε α} (hx : x.HaltsOnly own) :
    (x.attempt : Action σ ε' (Except ε α)).HaltsOnly own := by
  intro s steps h t hpath
  rcases path_attempt_iff.1 hpath with ⟨_, -, ⟨⟩⟩ | ⟨_, -, ⟨⟩⟩ | ⟨h', hpath, hend⟩
  obtain rfl := Stop.halt.inj (Except.error.inj hend)
  exact hx _ _ _ _ hpath

end Action
end Platform
end BootHandoff
