import CaseSetup.Block.Basic
import CaseSetup.Evaluation.Arithmetic

/-! # What values mean

`Means root here v w`: the value `v`, written in the block `here` of the document `root`, has the
result `w`. A finite derivation is all it takes; nothing watches for cycles, and a reference that
leads back to itself has no finite derivation. -/

namespace CaseSetup

mutual
/-- The result of a value that is written in the block `here`. -/
inductive Means (root : Block) : Block → Value → Value → Prop
  | bool {here : Block} (b : Bool) : Means root here (.bool b) (.bool b)
  | int {here : Block} (n : Int64) : Means root here (.int n) (.int n)
  | float {here : Block} (x : Float) : Means root here (.float x) (.float x)
  | str {here : Block} (s : String) : Means root here (.str s) (.str s)
  | list {here : Block} {vs ws : List Value} :
    MeansItems root here vs ws → Means root here (.list vs) (.list ws)
  | tuple {here : Block} {vs ws : List Value} :
    MeansItems root here vs ws → Means root here (.tuple vs) (.tuple ws)
  | dict {here : Block} {es fs : Dict} : MeansDict root here es fs → Means root here (.dict es) (.dict fs)
  /-- The entries of a nested block are written inside that block. -/
  | block {here b c : Block} : MeansBlock root b b c → Means root here (.block b) (.block c)
  | neg {here : Block} {v a w : Value} :
    Means root here v a → Arithmetic.negate a = .ok w → Means root here (.neg v) w
  | binary {here : Block} {op : Op} {l r a b w : Value} :
    Means root here l a → Means root here r b → Arithmetic.apply op a b = .ok w →
    Means root here (.binary op l r) w
  | near {here : Block} {name : String} {v w : Value} :
    here.lookup name = some v → Means root here v w → Means root here (.var name) w
  | far {here : Block} {name : String} {v w : Value} :
    here.lookup name = none → root.lookup name = some v → Means root root v w →
    Means root here (.var name) w

inductive MeansItems (root : Block) : Block → List Value → List Value → Prop
  | nil {here : Block} : MeansItems root here [] []
  | cons {here : Block} {v w : Value} {vs ws : List Value} :
    Means root here v w → MeansItems root here vs ws → MeansItems root here (v :: vs) (w :: ws)

inductive MeansDict (root : Block) : Block → Dict → Dict → Prop
  | nil {here : Block} : MeansDict root here [] []
  | cons {here : Block} {k : Key} {v w : Value} {es fs : Dict} :
    Means root here v w → MeansDict root here es fs → MeansDict root here ((k, v) :: es) ((k, w) :: fs)

inductive MeansBlock (root : Block) : Block → Block → Block → Prop
  | nil {here : Block} : MeansBlock root here [] []
  | cons {here : Block} {name : String} {v w : Value} {es fs : Block} :
    Means root here v w → MeansBlock root here es fs →
    MeansBlock root here ((name, v) :: es) ((name, w) :: fs)
end

end CaseSetup
