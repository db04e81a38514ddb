import MessagingGateway.Balance.Config
import MessagingGateway.Transition.System
import Mathlib.Logic.Function.Basic

/-! Three writers of one `configJson`. Two of them read the whole object and wait for the
carrier before they write the whole object back; the third replaces it. -/
namespace MessagingGateway.Balance
open Transition

/-- An operation at work, with what it has read. -/
inductive Pending where
  | scheduled (cfg : Config)
  | demanded (cfg : Config) (code : String)
  | update (config : List (String × Setting))

structure Row where
  config : Config
  ops : ℕ → Option Pending
  /-- The value each key was last set to by a completed operation. -/
  settled : Config

inductive Step where
  | checkAll (o : ℕ)
  | check (o : ℕ) (ussdOverride : Option String)
  | updateEndpoint (o : ℕ) (config : List (String × Setting))
  | answer (o : ℕ) (answer : Answer) (now : String)
  | write (o : ℕ)
  | fail (o : ℕ)

namespace Row
variable (r : Row)

def setOp (o : ℕ) (op : Option Pending) : Row := { r with ops := Function.update r.ops o op }

/-- The operation completes with the write. -/
def complete (o : ℕ) (w : Write) : Row where
  config := w.config
  ops := Function.update r.ops o none
  settled := r.settled.spread w.fields

/-- Every key has the value it was last set to. -/
def Kept : Prop := ∀ key value, r.settled key = some value → r.config key = some value

/-- The keys that completed operations have set and the write does not are in the object it
spreads, with the values they have now. -/
def Fresh (w : Write) : Prop := ∀ key ∉ w.keys, r.settled key ≠ none → w.base key = r.config key

/-- What the step writes, if it does. A failed on-demand check throws before its write. -/
def written : Step → Option Write
  | .answer o answer now => match r.ops o with
    | some (.scheduled cfg) => some (record cfg answer now)
    | some (.demanded cfg code) => if answer.ok then some (remember cfg code answer now) else none
    | _ => none
  | .write o => match r.ops o with
    | some (.update config) => some ⟨fun _ => none, config⟩
    | _ => none
  | _ => none

end Row

def Sim.step (sim : Sim) (r : Row) : Step → Option Row
  | .checkAll o => if (r.ops o).isNone then
      match scheduledCode sim r.config, truthy sim.line with
      | some _, some _ => some (r.setOp o (some (.scheduled r.config)))
      | _, _ => some r
    else none
  | .check o ussdOverride => if (r.ops o).isNone then
      match demandedCode sim r.config ussdOverride, truthy sim.line with
      | some code, some _ => some (r.setOp o (some (.demanded r.config code)))
      | _, _ => some r
    else none
  | .updateEndpoint o config => if (r.ops o).isNone then some (r.setOp o (some (.update config))) else none
  | .answer o answer now => match r.ops o with
    | some (.scheduled cfg) => some (r.complete o (record cfg answer now))
    | some (.demanded cfg code) =>
      if answer.ok then some (r.complete o (remember cfg code answer now)) else some (r.setOp o none)
    | _ => none
  | .write o => match r.ops o with
    | some (.update config) => some (r.complete o ⟨fun _ => none, config⟩)
    | _ => none
  | .fail o => (r.ops o).map fun _ => r.setOp o none

def Sim.config (sim : Sim) : System Row Step where
  init r := (∀ o, r.ops o = none) ∧ ∀ key, r.settled key = none
  step := sim.step

/-- The step writes nothing out of date. -/
def Fresh (r : Row) (s : Step) : Prop := ∀ w, r.written s = some w → r.Fresh w

section
variable {sim : Sim} {r r' : Row} {s : Step}

/-- A step writes the column once or leaves it. -/
theorem step_writes (h : sim.step r s = some r') : (∃ o w, r.written s = some w ∧ r' = r.complete o w) ∨
    r.written s = none ∧ r'.config = r.config ∧ r'.settled = r.settled := by
  cases s with
  | checkAll o =>
    simp only [Sim.step, Option.ite_none_right_eq_some] at h
    obtain ⟨-, h⟩ := h
    split at h <;> cases h <;> exact .inr ⟨rfl, rfl, rfl⟩
  | check o ussdOverride =>
    simp only [Sim.step, Option.ite_none_right_eq_some] at h
    obtain ⟨-, h⟩ := h
    split at h <;> cases h <;> exact .inr ⟨rfl, rfl, rfl⟩
  | updateEndpoint o config =>
    obtain ⟨-, h⟩ := (Option.ite_none_right_eq_some ..).mp h
    cases h
    exact .inr ⟨rfl, rfl, rfl⟩
  | answer o answer now =>
    simp only [Sim.step] at h
    simp only [Row.written]
    split at h
    · cases h
      exact .inl ⟨o, _, rfl, rfl⟩
    · split at h
      · cases h
        exact .inl ⟨o, _, if_pos ‹_›, rfl⟩
      · cases h
        exact .inr ⟨if_neg ‹_›, rfl, rfl⟩
    · cases h
  | write o =>
    simp only [Sim.step] at h
    simp only [Row.written]
    split at h
    · cases h
      exact .inl ⟨o, _, rfl, rfl⟩
    · cases h
  | fail o =>
    obtain ⟨_, -, rfl⟩ := Option.map_eq_some_iff.mp h
    exact .inr ⟨rfl, rfl, rfl⟩

/-- A fresh write keeps what the operations before it have set. -/
theorem Row.Kept.complete (h : r.Kept) {w : Write} (hw : r.Fresh w) (o : ℕ) : (r.complete o w).Kept := by
  intro key value hset
  by_cases hkey : key ∈ w.keys
  · rw [← hset]
    exact Config.spread_of_mem w.base r.settled hkey
  · have hsettled : r.settled key = some value := by
      rw [← hset]
      exact (Config.spread_of_notMem r.settled hkey).symm
    calc (r.complete o w).config key
        = w.base key := Config.spread_of_notMem w.base hkey
      _ = r.config key := hw key hkey (by simp [hsettled])
      _ = some value := h key value hsettled

/-- A write that is not fresh loses a key. -/
theorem Row.Kept.lost (h : r.Kept) {w : Write} (hw : ¬ r.Fresh w) (o : ℕ) : ¬ (r.complete o w).Kept := by
  intro hkept
  apply hw
  intro key hkey hset
  obtain ⟨value, hsettled⟩ := Option.ne_none_iff_exists'.mp hset
  have hnow : (r.complete o w).settled key = some value := by
    rw [← hsettled]
    exact Config.spread_of_notMem r.settled hkey
  calc w.base key
      = (r.complete o w).config key := (Config.spread_of_notMem w.base hkey).symm
    _ = some value := hkept key value hnow
    _ = r.config key := (h key value hsettled).symm

end

/-- No update is lost exactly in the runs whose every write starts from an object that is
still current in the keys it does not set. -/
theorem kept_iff_fresh (sim : Sim) {r : Row} (h : sim.config.init r) (as : List Step) :
    sim.config.Along Row.Kept r as ↔ sim.config.Obeys Fresh r as := by
  apply System.along_iff_obeys (I := fun _ => True) _ _ trivial _ as
  · intro r s t _ hkept hfresh hs
    refine ⟨trivial, ?_⟩
    rcases step_writes hs with ⟨o, w, hw, rfl⟩ | ⟨-, hconfig, hsettled⟩
    · exact hkept.complete (hfresh w hw) o
    · rw [Row.Kept, hconfig, hsettled]
      exact hkept
  · intro r s t _ hkept hstale hs
    rcases step_writes hs with ⟨o, w, hw, rfl⟩ | ⟨hnone, -⟩
    · apply hkept.lost
      intro hfresh
      apply hstale
      intro w' hw'
      rw [hw] at hw'
      cases hw'
      exact hfresh
    · exact absurd (fun w hw => by rw [hnone] at hw; cases hw) hstale
  · intro key value hset
    rw [h.2 key] at hset
    cases hset

namespace Sample

def sim : Sim := ⟨some "2", fun _ => none⟩

def row : Row where
  config key := if key = "balanceUssd" then some (.text "*101#") else none
  ops _ := none
  settled _ := none

def reading : Answer := .read 100 "UAH" "Na rahunku 100.00 grn."

/-- The daily check ends before the operator tries another code. -/
def inTurn : List Step :=
  [.checkAll 0, .answer 0 reading "06:00", .check 1 (some " *111# "), .answer 1 reading "06:05"]

/-- The operator tries another code while the daily check waits for the carrier. -/
def meanwhile : List Step :=
  [.checkAll 0, .check 1 (some " *111# "), .answer 1 reading "06:00", .answer 0 reading "06:05"]

end Sample

theorem kept_in_turn : Sample.sim.config.Along Row.Kept Sample.row Sample.inTurn := by
  apply (kept_iff_fresh Sample.sim ⟨fun _ => rfl, fun _ => rfl⟩ Sample.inTurn).mpr
  refine ⟨nofun, ⟨?_, ⟨nofun, ⟨?_, trivial⟩⟩⟩⟩
  · intro w hw key _ _
    cases hw
    rfl
  · intro w hw key _ _
    cases hw
    rfl

/-- The code that worked is forgotten: the daily check writes back the one it read before. -/
theorem working_code_lost : ¬ ∀ (sim : Sim) (r : Row), sim.config.init r → ∀ as : List Step,
    sim.config.Along Row.Kept r as := by
  intro h
  have halong := h Sample.sim Sample.row ⟨fun _ => rfl, fun _ => rfl⟩ Sample.meanwhile
  have hkept : some (Setting.text "*101#") = some (.text "*111#") :=
    halong.last rfl "balanceUssd" (.text "*111#") rfl
  simp [Setting.text] at hkept

end MessagingGateway.Balance
