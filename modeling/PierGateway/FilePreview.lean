import PierGateway.EventRuns
import PierGateway.ObjectList
import PierGateway.PreviewKinds

/-!
# The file preview

An effect of the dialog fetches the file and shows it from an object URL or as text. It is
set up anew when the file, its size, the language or the dialog's visibility changes, after
the one before it has been cleaned up; both happen some time after the render. The fetch
and the reading of the text go on meanwhile and may end under another effect. The effect's
own flag tells a run that it is superseded, and the reference to the object URL is common
to all runs.
-/
namespace PierGateway.Preview
open GoStrings EventRuns
open Csv (Text)

/-- Kinds whose bytes are read as text. -/
def isTextualKind (kind : Value) : Bool :=
  kind = .kind .text || kind = .kind .markdown || kind = .kind .csv || kind = .kind .json

def maxTextBytes : ℕ := 512 * 1024
def maxPreviewBytes : ℕ := 25 * 1024 * 1024

/-- What comes from outside: the rule for sigma, and the text of a key in a language. -/
structure Environment where
  finalSigma : List ℕ → List ℕ → Bool
  t : Str → Str → Str

/-- The properties of the dialog the effect depends on, the language among them. -/
structure Props where
  bucket : Text
  objectKey : Text
  size : Option ℕ
  visible : Bool
  language : Str
deriving DecidableEq

def Props.kind (p : Props) (env : Environment) : Value :=
  previewKindFor env.finalSigma p.objectKey none

inductive Status where
  | loading
  | ready
  | tooLarge
  | unsupported
  | error
deriving DecidableEq

inductive ViewMode where
  | rendered
  | source

/-- What a run waits for. -/
inductive Stage where
  | fetching
  | reading
deriving DecidableEq

/-- A run that is waiting, with the number of its effect and what it has captured. -/
structure Run where
  effect : ℕ
  props : Props
  stage : Stage

/-- The dialog: the properties of the last render, none after it has gone; those the effect was last
set up or left out for; the effect that is set up, and the flag of each one so far; the state of the
component; the runs that wait; and the object URLs that have not been revoked. -/
structure Dialog where
  props : Option Props
  deps : Option Props := none
  active : Option ℕ := none
  cancelled : List Bool := []
  urlRef : Option ℕ := none
  status : Status := .loading
  url : Option ℕ := none
  textContent : Text := []
  viewMode : ViewMode := .rendered
  messages : List Str := []
  runs : List Run := []
  live : List ℕ := []
  created : ℕ := 0

inductive DialogEvent where
  | render (props : Props)
  | unmount
  | flushEffects
  | fetched (i : ℕ) (reply : Option ℕ)
  | textRead (i : ℕ) (reply : Option Text)
  | setViewMode (mode : ViewMode)

namespace Dialog

def revoke (s : Dialog) : Dialog :=
  match s.urlRef with
  | some u => { s with live := s.live.erase u, urlRef := none }
  | none => s

/-- A run begins from nothing. -/
def reset (s : Dialog) : Dialog :=
  revoke { s with status := .loading, url := none, textContent := [], viewMode := .rendered }

/-- `run` up to its first suspension. -/
def run (s : Dialog) (env : Environment) (effect : ℕ) (p : Props) : Dialog :=
  if p.kind env = .kind .unsupported then { s.reset with status := .unsupported }
  else if ∃ size ∈ p.size, maxPreviewBytes < size then { s.reset with status := .tooLarge }
  else { s.reset with runs := s.reset.runs ++ [⟨effect, p, .fetching⟩] }

/-- The effect is cleaned up, if one is set up. -/
def cleanup (s : Dialog) : Dialog :=
  match s.active with
  | some n => revoke { s with cancelled := s.cancelled.set n true, active := none }
  | none => s

/-- A new effect, with a flag of its own. -/
def enter (s : Dialog) (p : Props) : Dialog :=
  { s with deps := some p, active := some s.cancelled.length, cancelled := s.cancelled ++ [false] }

/-- The effect of a render. -/
def setUp (env : Environment) (s : Dialog) : Dialog :=
  match s.props with
  | some p =>
      if p.visible then (s.enter p).run env s.cancelled.length p else { s with deps := some p }
  | none => { s with deps := none }

/-- Effects run when something they depend on has changed. -/
def flushEffects (env : Environment) (s : Dialog) : Dialog :=
  if s.deps = s.props then s else s.cleanup.setUp env

def isCancelled (s : Dialog) (r : Run) : Bool := s.cancelled.getD r.effect false

/-- A run that has ended is waited for no more. -/
def finish (s : Dialog) (i : ℕ) : Dialog := { s with runs := s.runs.eraseIdx i }

/-- The `catch` of a run; what is caught here never has a message of its own. -/
def fail (env : Environment) (s : Dialog) (i : ℕ) (r : Run) : Dialog :=
  if s.isCancelled r then s.finish i
  else
    { s.finish i with
      status := .error
      messages :=
        s.messages ++ [Spa.errorMessage none (env.t r.props.language (str "preview.failed"))] }

/-- A run goes on with the bytes it has fetched, of which only the size matters here. -/
def settleFetch (env : Environment) (s : Dialog) (i : ℕ) (r : Run) (reply : Option ℕ) : Dialog :=
  match reply with
  | none => s.fail env i r
  | some size =>
      if s.isCancelled r then s.finish i
      else if maxPreviewBytes < size then { s.finish i with status := .tooLarge }
      else if isTextualKind (r.props.kind env) then
        if maxTextBytes < size then { s.finish i with status := .tooLarge }
        else { s with runs := s.runs.set i { r with stage := .reading } }
      else
        { s.finish i with
          live := s.live ++ [s.created]
          created := s.created + 1
          urlRef := some s.created
          url := some s.created
          status := .ready }

def settleText (env : Environment) (s : Dialog) (i : ℕ) (r : Run) (reply : Option Text) : Dialog :=
  match reply with
  | none => s.fail env i r
  | some text =>
      if s.isCancelled r then s.finish i
      else { s.finish i with textContent := text, status := .ready }

/-- The effects of a render are run before the next one at the latest. -/
def step (env : Environment) (s : Dialog) : DialogEvent → Option Dialog
  | .render props => s.props.map fun _ => { s.flushEffects env with props := some props }
  | .unmount => s.props.map fun _ => { s.flushEffects env with props := none }
  | .flushEffects => some (s.flushEffects env)
  | .fetched i reply =>
      (s.runs[i]?.filter fun r => r.stage = .fetching).map fun r => s.settleFetch env i r reply
  | .textRead i reply =>
      (s.runs[i]?.filter fun r => r.stage = .reading).map fun r => s.settleText env i r reply
  | .setViewMode mode => some { s with viewMode := mode }

/-- The dialog as it is first rendered. -/
def mount (p : Props) : Dialog := { props := some p }

/-! ### Object URLs and superseded runs -/

/-- The invariant: the one live URL is the one in the reference, and a waiting run is cancelled or
is that of the effect set up now, which then holds no URL yet. -/
structure Sound (s : Dialog) : Prop where
  live : s.live = s.urlRef.toList
  active : ∀ n, s.active = some n → n < s.cancelled.length ∧ ∃ p, s.deps = some p ∧ p.visible = true
  inactive : s.active = none → s.urlRef = none
  waiting : ∀ r ∈ s.runs,
    s.cancelled[r.effect]? = some true ∨ s.active = some r.effect ∧ s.urlRef = none
  effects : (s.runs.map (·.effect)).Nodup

/-- Between two effects nothing is held, and whatever waits is cancelled. -/
structure Quiet (s : Dialog) : Prop where
  live : s.live = []
  urlRef : s.urlRef = none
  active : s.active = none
  waiting : ∀ r ∈ s.runs, s.cancelled[r.effect]? = some true
  effects : (s.runs.map (·.effect)).Nodup

theorem Sound.congr {s t : Dialog} (h : Sound s) (hlive : t.live = s.live)
    (href : t.urlRef = s.urlRef)
    (hactive : t.active = s.active) (hcancelled : t.cancelled = s.cancelled)
    (hdeps : t.deps = s.deps)
    (hruns : t.runs = s.runs) : Sound t where
  live := by rw [hlive, href, h.live]
  active := by
    rw [hactive, hcancelled, hdeps]
    exact h.active
  inactive := by
    rw [hactive, href]
    exact h.inactive
  waiting := by
    rw [hruns, hcancelled, hactive, href]
    exact h.waiting
  effects := by
    rw [hruns]
    exact h.effects

/-- Revoking leaves no URL, if the reference holds the only one. -/
theorem revoke_eq {s : Dialog} (h : s.live = s.urlRef.toList) :
    s.revoke = { s with live := [], urlRef := none } := by
  unfold revoke
  cases href : s.urlRef with
  | none =>
      rw [href] at h
      cases s
      simp_all
  | some u =>
      rw [href] at h
      simp [h]

theorem Sound.cleanup {s : Dialog} (h : Sound s) : Quiet s.cleanup := by
  unfold Dialog.cleanup
  cases hactive : s.active with
  | none =>
      refine ⟨?_, h.inactive hactive, hactive, fun r hr => ?_, h.effects⟩
      · rw [h.live, h.inactive hactive]
        rfl
      · rcases h.waiting r hr with hcancelled | ⟨hcurrent, -⟩
        · exact hcancelled
        · rw [hactive] at hcurrent
          cases hcurrent
  | some n =>
      have hn := (h.active n hactive).1
      dsimp only
      rw [revoke_eq (s := { s with cancelled := s.cancelled.set n true, active := none }) h.live]
      refine ⟨rfl, rfl, rfl, fun r hr => ?_, h.effects⟩
      have heffect : s.cancelled[r.effect]? = some true ∨ r.effect = n := by
        rcases h.waiting r hr with hcancelled | ⟨hcurrent, -⟩
        · exact .inl hcancelled
        · rw [hactive] at hcurrent
          exact .inr (Option.some.inj hcurrent).symm
      by_cases hr : r.effect = n
      · rw [hr]
        exact List.getElem?_set_self hn
      · rw [List.getElem?_set_ne (Ne.symm hr)]
        exact heffect.resolve_right hr

theorem reset_eq {s : Dialog} (h : s.live = s.urlRef.toList) :
    s.reset = { s with
      status := .loading, url := none, textContent := [], viewMode := .rendered
      live := [], urlRef := none } := by
  unfold reset
  exact revoke_eq h

/-- A run starts by letting go of what is held, and then stops at once or waits for its file. -/
theorem run_cases (env : Environment) {s : Dialog} (h : s.live = s.urlRef.toList) (n : ℕ)
    (p : Props) :
    ∃ status runs, s.run env n p =
        { s with
          status := status, url := none, textContent := [], viewMode := .rendered
          live := [], urlRef := none, runs := s.runs ++ runs } ∧
      (runs = [] ∨ runs = [⟨n, p, .fetching⟩]) := by
  unfold run
  rw [reset_eq h]
  split_ifs
  · exact ⟨.unsupported, [], by simp, .inl rfl⟩
  · exact ⟨.tooLarge, [], by simp, .inl rfl⟩
  · exact ⟨.loading, _, rfl, .inr rfl⟩

/-- Nothing is set up: what is quiet stays sound whatever the effect was left out for. -/
theorem Quiet.sound {s : Dialog} (h : Quiet s) (deps : Option Props) :
    Sound { s with deps := deps } where
  live := by rw [h.live, h.urlRef, Option.toList_none]
  active n hn := by
    rw [h.active] at hn
    cases hn
  inactive _ := h.urlRef
  waiting r hr := .inl (h.waiting r hr)
  effects := h.effects

/-- A waiting run belongs to an effect there has been. -/
theorem Quiet.effect_lt {s : Dialog} (h : Quiet s) {r : Run} (hr : r ∈ s.runs) :
    r.effect < s.cancelled.length :=
  (List.getElem?_eq_some_iff.mp (h.waiting r hr)).choose

theorem Quiet.run {s : Dialog} (h : Quiet s) (env : Environment) {p : Props}
    (hp : p.visible = true) :
    Sound ((s.enter p).run env s.cancelled.length p) := by
  have hlive : (s.enter p).live = (s.enter p).urlRef.toList := (h.sound (some p)).live
  obtain ⟨status, runs, hrun, hruns⟩ := run_cases env hlive s.cancelled.length p
  have hold : ∀ r ∈ s.runs, (s.enter p).cancelled[r.effect]? = some true := by
    intro r hr
    refine (List.getElem?_append_left (h.effect_lt hr)).trans ?_
    exact h.waiting r hr
  have hlength : s.cancelled.length < (s.enter p).cancelled.length := by simp [enter]
  rw [hrun]
  refine ⟨rfl, ?_, ?_, ?_, ?_⟩
  · intro n hn
    obtain rfl := Option.some.inj hn
    exact ⟨hlength, p, rfl, hp⟩
  · intro hnone
    cases hnone
  · intro r hr
    rcases List.mem_append.mp hr with hr | hr
    · exact .inl (hold r hr)
    · rcases hruns with rfl | rfl
      · exact absurd hr List.not_mem_nil
      · obtain rfl := List.mem_singleton.mp hr
        exact .inr ⟨rfl, rfl⟩
  · have hnew : s.cancelled.length ∉ s.runs.map (·.effect) := by
      intro hmem
      obtain ⟨r, hr, heffect⟩ := List.mem_map.mp hmem
      have hlt := h.effect_lt hr
      omega
    have henter : (s.enter p).runs = s.runs := rfl
    rw [List.map_append, henter]
    rcases hruns with rfl | rfl
    · simpa using h.effects
    · rw [List.map_singleton, ← List.concat_eq_append]
      exact h.effects.concat hnew

theorem Quiet.setUp {s : Dialog} (h : Quiet s) (env : Environment) : Sound (s.setUp env) := by
  unfold Dialog.setUp
  split
  next p _ =>
    split_ifs with hvisible
    · exact h.run env hvisible
    · exact h.sound (some p)
  · exact h.sound none

theorem Sound.flushEffects {s : Dialog} (h : Sound s) (env : Environment) :
    Sound (s.flushEffects env) := by
  unfold Dialog.flushEffects
  split_ifs
  · exact h
  · exact h.cleanup.setUp env

theorem Sound.finish {s : Dialog} (h : Sound s) (i : ℕ) : Sound (s.finish i) where
  live := h.live
  active := h.active
  inactive := h.inactive
  waiting r hr := h.waiting r (List.mem_of_mem_eraseIdx hr)
  effects := by
    have hsub : ((s.finish i).runs.map (·.effect)).Sublist (s.runs.map (·.effect)) :=
      (List.eraseIdx_sublist s.runs i).map _
    exact hsub.nodup h.effects

theorem isCancelled_iff {s : Dialog} {r : Run} :
    s.isCancelled r = true ↔ s.cancelled[r.effect]? = some true := by
  unfold isCancelled
  rw [List.getD_eq_getElem?_getD]
  cases s.cancelled[r.effect]? with
  | none => simp
  | some b => simp

/-- A waiting run that is not cancelled is that of the effect set up now, and no URL is held. -/
theorem Sound.current {s : Dialog} (h : Sound s) {i : ℕ} {r : Run} (hr : s.runs[i]? = some r)
    (hrun : ¬s.isCancelled r = true) : s.active = some r.effect ∧ s.urlRef = none :=
  (h.waiting r (List.mem_of_getElem? hr)).resolve_left fun hc => hrun (isCancelled_iff.mpr hc)

theorem Sound.fail {s : Dialog} (h : Sound s) (env : Environment) (i : ℕ) (r : Run) :
    Sound (s.fail env i r) := by
  unfold Dialog.fail
  split_ifs
  · exact h.finish i
  · exact (h.finish i).congr rfl rfl rfl rfl rfl rfl

/-- Every effect has one run, so once it has made its URL no run of the effect waits. -/
theorem Sound.create {s : Dialog} (h : Sound s) {i : ℕ} {r : Run} (hr : s.runs[i]? = some r)
    (hrun : ¬s.isCancelled r = true) :
    Sound { s.finish i with
      live := s.live ++ [s.created]
      created := s.created + 1
      urlRef := some s.created
      url := some s.created
      status := .ready } := by
  obtain ⟨hactive, href⟩ := h.current hr hrun
  have hfinish := h.finish i
  refine ⟨?_, hfinish.active, ?_, ?_, hfinish.effects⟩
  · simp [h.live, href]
  · intro hnone
    rw [show s.active = none from hnone] at hactive
    cases hactive
  · intro q hq
    left
    have hne : q.effect ≠ r.effect := by
      have hnodup : ((r :: s.runs.eraseIdx i).map (·.effect)).Nodup :=
        ((perm_eraseIdx hr).map _).nodup_iff.mpr h.effects
      rw [List.map_cons, List.nodup_cons] at hnodup
      exact ne_of_mem_of_not_mem (List.mem_map_of_mem hq) hnodup.1
    refine (hfinish.waiting q hq).resolve_right fun hcurrent => hne ?_
    exact Option.some.inj (hcurrent.1.symm.trans hactive)

theorem Sound.read {s : Dialog} (h : Sound s) {i : ℕ} {r : Run} (hr : s.runs[i]? = some r) :
    Sound { s with runs := s.runs.set i { r with stage := .reading } } where
  live := h.live
  active := h.active
  inactive := h.inactive
  waiting q hq := by
    rcases List.mem_or_eq_of_mem_set hq with hq | rfl
    · exact h.waiting q hq
    · exact h.waiting r (List.mem_of_getElem? hr)
  effects := by
    obtain ⟨hi, rfl⟩ := List.getElem?_eq_some_iff.mp hr
    have hlength : i < (s.runs.map (·.effect)).length := by simpa using hi
    have heffect : s.runs[i].effect = (s.runs.map (·.effect))[i] := by simp
    rw [List.map_set, heffect, List.set_getElem_self]
    exact h.effects

theorem Sound.settleFetch {s : Dialog} (h : Sound s) (env : Environment) {i : ℕ} {r : Run}
    (hr : s.runs[i]? = some r) (reply : Option ℕ) : Sound (s.settleFetch env i r reply) := by
  unfold Dialog.settleFetch
  split
  · exact h.fail env i r
  · split_ifs with hcancelled
    · exact h.finish i
    · exact (h.finish i).congr rfl rfl rfl rfl rfl rfl
    · exact (h.finish i).congr rfl rfl rfl rfl rfl rfl
    · exact h.read hr
    · exact h.create hr hcancelled

theorem Sound.settleText {s : Dialog} (h : Sound s) (env : Environment) {i : ℕ} {r : Run}
    (reply : Option Text) : Sound (s.settleText env i r reply) := by
  unfold Dialog.settleText
  split
  · exact h.fail env i r
  · split_ifs
    · exact h.finish i
    · exact (h.finish i).congr rfl rfl rfl rfl rfl rfl

theorem settled_cases {stage : Stage} {s t : Dialog} {i : ℕ} {settle : Run → Dialog}
    (h : ((s.runs[i]?.filter fun r => r.stage = stage).map settle) = some t) :
    ∃ r, s.runs[i]? = some r ∧ t = settle r := by
  obtain ⟨r, hr, rfl⟩ := Option.map_eq_some_iff.mp h
  exact ⟨r, (Option.filter_eq_some_iff.mp hr).1, rfl⟩

theorem Sound.step {env : Environment} {s t : Dialog} {e : DialogEvent} (h : Sound s)
    (hstep : s.step env e = some t) : Sound t := by
  cases e with
  | render props =>
      obtain ⟨_, -, rfl⟩ := Option.map_eq_some_iff.mp hstep
      exact (h.flushEffects env).congr rfl rfl rfl rfl rfl rfl
  | unmount =>
      obtain ⟨_, -, rfl⟩ := Option.map_eq_some_iff.mp hstep
      exact (h.flushEffects env).congr rfl rfl rfl rfl rfl rfl
  | flushEffects =>
      rw [← Option.some.inj hstep]
      exact h.flushEffects env
  | fetched i reply =>
      obtain ⟨r, hr, rfl⟩ := settled_cases hstep
      exact h.settleFetch env hr reply
  | textRead i reply =>
      obtain ⟨r, -, rfl⟩ := settled_cases hstep
      exact h.settleText env reply
  | setViewMode mode =>
      rw [← Option.some.inj hstep]
      exact h.congr rfl rfl rfl rfl rfl rfl

theorem sound_mount (p : Props) : Sound (mount p) where
  live := rfl
  active _ h := nomatch h
  inactive _ := rfl
  waiting _ h := absurd h List.not_mem_nil
  effects := List.nodup_nil

end Dialog

/-! ### What the preview promises -/

/-- The run an event is the completion of, by its place. -/
def DialogEvent.completes : DialogEvent → Option ℕ
  | .fetched i _ | .textRead i _ => some i
  | _ => none

namespace Dialog

/-- The dialog is closed or gone, and the effects of that have run. -/
def Closed (s : Dialog) : Prop := s.deps = s.props ∧ ∀ p, s.props = some p → p.visible = false

/-- Object URLs are held or revoked, none is left in a closed dialog, and a run whose effect is not
the one set up now ends without a trace. -/
structure Tidy (env : Environment) (s : Dialog) : Prop where
  live : s.live = s.urlRef.toList
  closed : s.Closed → s.live = []
  superseded : ∀ e i r t, e.completes = some i → s.runs[i]? = some r → s.active ≠ some r.effect →
    s.step env e = some t →
    t.status = s.status ∧ t.url = s.url ∧ t.textContent = s.textContent ∧ t.messages = s.messages

theorem Sound.closed {s : Dialog} (h : Sound s) (hclosed : s.Closed) : s.live = [] := by
  have hactive : s.active = none := by
    cases hactive : s.active with
    | none => rfl
    | some n =>
        obtain ⟨-, p, hdeps, hvisible⟩ := h.active n hactive
        have hhidden := hclosed.2 p (hclosed.1.symm.trans hdeps)
        rw [hvisible] at hhidden
        cases hhidden
  rw [h.live, h.inactive hactive, Option.toList_none]

theorem step_cancelled {env : Environment} {s t : Dialog} {e : DialogEvent} {i : ℕ} {r : Run}
    (he : e.completes = some i) (hr : s.runs[i]? = some r) (hcancelled : s.isCancelled r = true)
    (hstep : s.step env e = some t) : t = s.finish i := by
  have hfail : s.fail env i r = s.finish i := if_pos hcancelled
  cases e with
  | fetched j reply =>
      obtain rfl := Option.some.inj he
      obtain ⟨q, hq, rfl⟩ := settled_cases hstep
      obtain rfl := Option.some.inj (hq.symm.trans hr)
      cases reply with
      | none => exact hfail
      | some size => exact if_pos hcancelled
  | textRead j reply =>
      obtain rfl := Option.some.inj he
      obtain ⟨q, hq, rfl⟩ := settled_cases hstep
      obtain rfl := Option.some.inj (hq.symm.trans hr)
      cases reply with
      | none => exact hfail
      | some text => exact if_pos hcancelled
  | render props => cases he
  | unmount => cases he
  | flushEffects => cases he
  | setViewMode mode => cases he

theorem Sound.tidy {s : Dialog} (h : Sound s) (env : Environment) : Tidy env s where
  live := h.live
  closed := h.closed
  superseded e i r t he hr hsuperseded hstep := by
    have hcancelled : s.isCancelled r = true := by
      rcases h.waiting r (List.mem_of_getElem? hr) with hcancelled | ⟨hcurrent, -⟩
      · exact isCancelled_iff.mpr hcancelled
      · exact absurd hcurrent hsuperseded
    rw [step_cancelled he hr hcancelled hstep]
    exact ⟨rfl, rfl, rfl, rfl⟩

/-- In every state of every run of the dialog, from any first render. -/
theorem always_tidy {env : Environment} {p : Props} {s : Dialog}
    (h : Reaches (step env) unguarded (mount p) s) : Tidy env s := by
  have hsound : Sound s := h.invariant (sound_mount p) fun _ _ _ hs _ hstep => hs.step hstep
  exact hsound.tidy env

/-- Two pictures, shown one after the other. -/
def picture (name : String) : Props := ⟨ascii "b", ascii name, none, true, str "en"⟩

def english : Environment := ⟨fun _ _ => false, fun _ key => key⟩

/-- The first picture comes after the second has been asked for, and is dropped. -/
theorem always_tidy_picture :
    ∃ s, Reaches (step english) unguarded (mount (picture "1.png")) s ∧ s.live = [0] ∧ s.runs = [] ∧
      Tidy english s := by
  have hstart :
      Reaches (step english) unguarded (mount (picture "1.png")) (mount (picture "1.png")) := .refl
  have hopened := hstart.next (a := .flushEffects) trivial rfl
  have hchanged := hopened.next (a := .render (picture "2.png")) trivial rfl
  have hflushed := hchanged.next (a := .flushEffects) trivial rfl
  have hlate := hflushed.next (a := .fetched 0 (some 10)) trivial rfl
  have hshown := hlate.next (a := .fetched 0 (some 20)) trivial rfl
  exact ⟨_, hshown, rfl, rfl, always_tidy hshown⟩

end Dialog

end PierGateway.Preview
