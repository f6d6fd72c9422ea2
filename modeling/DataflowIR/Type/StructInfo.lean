import DataflowIR.Text.Layout
import DataflowIR.Type.Dim

namespace DataflowIR

/-- `ndim` is the rank, `unknownNdim` when it is not known; a shape or tensor may have a known
rank without known dimensions. -/
inductive StructInfo where
  | object
  | prim (dtype : DType)
  | shape (values : Option (List Dim)) (ndim : Int)
  | tensor (shape : Option (List Dim)) (dtype : DType) (ndim : Int)
  | tuple (fields : List StructInfo)
  | func (params : List StructInfo) (ret : StructInfo)
  | opaqueFunc (ret : StructInfo)
  deriving Inhabited

namespace StructInfo

def unknownNdim : Int := -1

def tensorOfShape (shape : List Dim) (dtype : DType) : StructInfo :=
  tensor (some shape) dtype shape.length

def tensorOfNdim (ndim : Int) (dtype : DType) : StructInfo :=
  tensor none dtype ndim

def shapeOf (values : List Dim) : StructInfo :=
  shape (some values) values.length

mutual

def decEq : (a b : StructInfo) → Decidable (a = b)
  | object, b => by
    cases b <;> first | exact isTrue rfl | exact isFalse (by simp)
  | prim d, b =>
    match b with
    | prim d' => decidable_of_iff (d = d') (by simp)
    | object | shape .. | tensor .. | tuple _ | func .. | opaqueFunc _ => isFalse (by simp)
  | shape vs n, b =>
    match b with
    | shape vs' n' => decidable_of_iff (vs = vs' ∧ n = n') (by simp)
    | object | prim _ | tensor .. | tuple _ | func .. | opaqueFunc _ => isFalse (by simp)
  | tensor vs d n, b =>
    match b with
    | tensor vs' d' n' => decidable_of_iff (vs = vs' ∧ d = d' ∧ n = n') (by simp)
    | object | prim _ | shape .. | tuple _ | func .. | opaqueFunc _ => isFalse (by simp)
  | tuple fs, b =>
    match b with
    | tuple fs' =>
      have := decEqList fs fs'
      decidable_of_iff (fs = fs') (by simp)
    | object | prim _ | shape .. | tensor .. | func .. | opaqueFunc _ => isFalse (by simp)
  | func ps r, b =>
    match b with
    | func ps' r' =>
      have := decEqList ps ps'
      have := decEq r r'
      decidable_of_iff (ps = ps' ∧ r = r') (by simp)
    | object | prim _ | shape .. | tensor .. | tuple _ | opaqueFunc _ => isFalse (by simp)
  | opaqueFunc r, b =>
    match b with
    | opaqueFunc r' =>
      have := decEq r r'
      decidable_of_iff (r = r') (by simp)
    | object | prim _ | shape .. | tensor .. | tuple _ | func .. => isFalse (by simp)

def decEqList : (as bs : List StructInfo) → Decidable (as = bs)
  | [], [] => isTrue rfl
  | [], _ :: _ => isFalse (by simp)
  | _ :: _, [] => isFalse (by simp)
  | a :: as, b :: bs =>
    have := decEq a b
    have := decEqList as bs
    decidable_of_iff (a = b ∧ as = bs) (by simp)

end

instance : DecidableEq StructInfo := decEq

/-- Dimensions in brackets. -/
def dimsText (dims : List Dim) : String :=
  Text.inBrackets (dims.map Dim.text)

mutual

def text : StructInfo → String
  | object => "Object"
  | prim dtype => "Prim(" ++ dtype.text ++ ")"
  | shape (some values) _ => "Shape(" ++ dimsText values ++ ")"
  | shape none ndim =>
    if ndim = unknownNdim then "Shape" else "Shape(ndim=" ++ toString ndim ++ ")"
  | tensor dims dtype ndim =>
    let dims := match dims with
      | some dims => [dimsText dims]
      | none => if ndim = unknownNdim then [] else ["ndim=" ++ toString ndim]
    let parts := if dtype = .void then dims else dims ++ [dtype.text]
    if parts.isEmpty then "Tensor" else "Tensor" ++ Text.inParens parts
  | tuple fields => "Tuple" ++ Text.inParens (texts fields)
  | func params ret => "Func(" ++ Text.inBrackets (texts params) ++ ", " ++ ret.text ++ ")"
  | opaqueFunc ret => "Func(" ++ ret.text ++ ")"

def texts : List StructInfo → List String
  | [] => []
  | s :: rest => s.text :: texts rest

end

mutual

/-- The symbolic variables of a struct info not already in `seen`, appended to it in the order of
their first occurrence. -/
def addSyms (seen : List SymVar) : StructInfo → List SymVar
  | object | prim _ => seen
  | shape values _ => Dim.addSymsOfList seen (values.getD [])
  | tensor dims _ _ => Dim.addSymsOfList seen (dims.getD [])
  | tuple fields => addSymsOfList seen fields
  | func params ret => ret.addSyms (addSymsOfList seen params)
  | opaqueFunc ret => ret.addSyms seen

def addSymsOfList (seen : List SymVar) : List StructInfo → List SymVar
  | [] => seen
  | s :: rest => addSymsOfList (s.addSyms seen) rest

end

def syms (s : StructInfo) : List SymVar :=
  s.addSyms []

mutual

/-- Put `f v` for each symbolic variable `v`; ranks stay as they are. -/
def subst (f : SymVar → Dim) : StructInfo → StructInfo
  | object => object
  | prim dtype => prim dtype
  | shape values ndim => shape (values.map (List.map (Dim.subst f))) ndim
  | tensor dims dtype ndim => tensor (dims.map (List.map (Dim.subst f))) dtype ndim
  | tuple fields => tuple (substList f fields)
  | func params ret => func (substList f params) (ret.subst f)
  | opaqueFunc ret => opaqueFunc (ret.subst f)

def substList (f : SymVar → Dim) : List StructInfo → List StructInfo
  | [] => []
  | s :: rest => s.subst f :: substList f rest

end

end StructInfo

end DataflowIR
