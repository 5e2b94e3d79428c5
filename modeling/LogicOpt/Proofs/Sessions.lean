import LogicOpt.Proofs.Histories
import LogicOpt.Proofs.PassRuns

namespace LogicOpt

open Network

inductive Operation where
  | command (c : Command)
  | pass (solve : Solver) (params : Params) (f : Resynthesizer) (callback : Callback)
      (resyn : ResynStats)

/-- The operations completed one after another, each command admissible in its turn. Every command
    is one visit, and every root of a pass is one. -/
inductive Performed : Network → List Operation → List Visit → Network → Prop where
  | nil {net : Network} : Performed net [] [] net
  | command {net mid net' : Network} {c : Command} {rest : List Operation} {visits : List Visit}
      (admissible : c.Admissible net) (run : Edit.Gives c.edit net () mid)
      (later : Performed mid rest visits net') :
      Performed net (.command c :: rest) (⟨net, c.encounters net, mid⟩ :: visits) net'
  | pass {net mid net' : Network} {solve : Solver} {params : Params} {f : Resynthesizer}
      {callback : Callback} {resyn : ResynStats} {stats : PassStats} {rest : List Operation}
      {visits : List Visit}
      (run : Edit.Gives (Edit.resubstituteWith solve params f callback resyn) net (.ok stats) mid)
      (later : Performed mid rest visits net') :
      Performed net (.pass solve params f callback resyn :: rest)
        (Edit.passVisits solve params f callback resyn net ++ visits) net'

namespace Edit

variable {net net' : Network} {solve : Solver} {params : Params} {f : Resynthesizer}
  {callback : Callback} {resyn : ResynStats} {stats : PassStats}

theorem resubstitute_consistent (consistent : net.Consistent)
    (run : Gives (resubstituteWith solve params f callback resyn) net (.ok stats) net') :
    net'.Consistent :=
  (resubstitute_invariant (fun _ => True) (fun _ => True) (fun _ _ _ _ => trivial)
    (fun _ _ _ _ => trivial) consistent trivial (fun _ _ => trivial) run).1

end Edit

theorem Performed.keeps {net net' : Network} {operations : List Operation}
    {visits : List Visit} (holds : Network → Prop)
    (command : ∀ {c : Command} {net net' : Network}, net.Consistent → holds net →
      c.Admissible net → Edit.Gives c.edit net () net' → holds net')
    (pass : ∀ {solve : Solver} {params : Params} {f : Resynthesizer} {callback : Callback}
      {resyn : ResynStats} {stats : PassStats} {net net' : Network}, net.Consistent → holds net →
      Edit.Gives (Edit.resubstituteWith solve params f callback resyn) net (.ok stats) net' →
        holds net')
    (history : Performed net operations visits net') (consistent : net.Consistent)
    (start : holds net) : net'.Consistent ∧ holds net' := by
  induction history with
  | nil => exact ⟨consistent, start⟩
  | command admissible run later ih =>
    exact ih (Command.keeps consistent admissible run).1
      (command consistent start admissible run)
  | pass run later ih =>
    exact ih (Edit.resubstitute_consistent consistent run) (pass consistent start run)

namespace Operation

def play : List Operation → Network → Option (List Visit × Network)
  | [], net => some ([], net)
  | .command c :: rest, net =>
    if c.Admissible net then
      match c.edit net with
      | .ok () mid =>
        (play rest mid).map fun (visits, net') => (⟨net, c.encounters net, mid⟩ :: visits, net')
      | .error _ _ => none
    else none
  | .pass solve params f callback resyn :: rest, net =>
    match Edit.resubstituteWith solve params f callback resyn net with
    | .ok (.ok _) mid => (play rest mid).map fun (visits, net') =>
      (Edit.passVisits solve params f callback resyn net ++ visits, net')
    | _ => none

theorem performed_of_play {operations : List Operation} {visits : List Visit}
    {net net' : Network} (played : play operations net = some (visits, net')) :
    Performed net operations visits net' := by
  induction operations generalizing net visits with
  | nil =>
    obtain ⟨rfl, rfl⟩ := played
    exact .nil
  | cons operation rest ih =>
    unfold play at played
    split at played
    · cases ‹_ = []›
    · rename_i c rest' same
      cases same
      split at played
      · rename_i admissible
        split at played
        · rename_i mid run
          obtain ⟨⟨later, last⟩, continued, same⟩ := Option.map_eq_some_iff.1 played
          cases same
          exact .command admissible run (ih continued)
        · cases played
      · cases played
    · rename_i solve params f callback resyn rest' same
      cases same
      split at played
      · rename_i stats mid run
        obtain ⟨⟨later, last⟩, continued, same⟩ := Option.map_eq_some_iff.1 played
        cases same
        exact .pass run (ih continued)
      · cases played

theorem exists_performed (operations : List Operation) (net : Network)
    (holds : List Visit → Network → Bool)
    (played : (play operations net).any (fun left => holds left.1 left.2) = true) :
    ∃ visits net', Performed net operations visits net' ∧ holds visits net' = true := by
  obtain ⟨⟨visits, net'⟩, ran, passed⟩ := (Option.any_eq_true _ _).1 played
  exact ⟨visits, net', performed_of_play ran, passed⟩

end Operation

end LogicOpt
