import Crossref.Proofs.Index.Agreement
import Crossref.Session

/-!
# Proofs — resolution — over indexes that answer alike

Resolution asks an index only by its look-ups, and looks at what a name alone is found by only where
this stands for one declaration.  So over two indexes that agree every name, type, member, call and
expression is resolved alike.  One equation for each function says so, with the index as the only
difference, and an induction over the stack of levels puts them together.

* `levels_eq`: the stacks of levels are the same.
* `ofIndex_eq`: the answers about a file are the same.
-/

namespace Crossref

open Index (Agree)

namespace Resolve

variable {i j : Index} (h : Agree i j)
include h

/-- A qualified name stands for the same declarations. -/
theorem qualified_eq : qualified i = qualified j := by
  funext name want
  rw [qualified, qualified, h.findByQualifiedName]

/-! ### Classifiers -/

/-- An alias stands for the same classifier. -/
theorem followAlias_eq : followAlias i = followAlias j := by
  funext ls c
  rw [followAlias, followAlias, h.anchor?]

/-- A classifier has the same supertypes. -/
theorem supertypesOf_eq : supertypesOf i = supertypesOf j := by
  funext ls c
  rw [supertypesOf, supertypesOf, h.anchor?]

theorem receiversAt_eq : receiversAt i = receiversAt j := by
  funext ls f n
  rw [receiversAt, receiversAt, h.classifierAt?]

/-- The same classifiers offer their members where no receiver is written. -/
theorem enclosingReceivers_eq : enclosingReceivers i = enclosingReceivers j := by
  funext ls f n
  rw [enclosingReceivers, enclosingReceivers, receiversAt_eq h]

theorem directMembersNamed_eq : directMembersNamed i = directMembersNamed j := by
  funext c name want
  simp only [directMembersNamed, h.membersOf]

/-- A classifier is visited in the same way by the search for members. -/
theorem visit_eq : Round.visit i = Round.visit j := by
  funext ls name want r c
  simp only [Round.visit, followAlias_eq h, directMembersNamed_eq h, supertypesOf_eq h]

/-- Induction over the levels that the rounds are spent on. -/
theorem membersFrom_eq : membersFrom i = membersFrom j := by
  funext name want ls seen cs
  induction ls generalizing seen cs with
  | nil => rfl
  | cons l ls ih =>
      cases cs with
      | nil => rfl
      | cons c cs => simp only [membersFrom, visit_eq h, ih]

/-- A classifier has the same members of a name, its own and those of its supertypes. -/
theorem membersNamed_eq : membersNamed i = membersNamed j := by
  funext ls c name want
  rw [membersNamed, membersNamed, membersFrom_eq h]

/-- A classifier has the same constructors. -/
theorem constructorsOf_eq : constructorsOf i = constructorsOf j := by
  funext ls c
  simp only [constructorsOf, followAlias_eq h, h.membersOf]

/-! ### Names -/

/-- A name is looked for in the same tiers. -/
theorem tiers_eq : tiers i = tiers j := by
  funext ls f name n want
  simp only [tiers, receiverMembers, inFile, imported, inPackage, starImported, globallyUnique,
    enclosingReceivers_eq h, membersNamed_eq h, h.topLevelIn, qualified_eq h, h.unambiguous]

/-- So a name denotes the same symbols. -/
theorem lookupName_eq : lookupName i = lookupName j := by
  funext ls f name n want
  rw [lookupName, lookupName, tiers_eq h]

/-- A path of names leads to the same classifier. -/
theorem classifierAlong_eq : classifierAlong i = classifierAlong j := by
  funext ls f n segments
  cases segments with
  | nil => rfl
  | cons first rest => simp only [classifierAlong, membersNamed_eq h]

theorem classifierOfName_eq : classifierOfName i = classifierOfName j := by
  funext ls f n name
  simp only [classifierOfName, qualified_eq h, classifierAlong_eq h]

/-- A type as written names the same classifier. -/
theorem classifierOfText_eq : classifierOfText i = classifierOfText j := by
  funext ls f n text throughAlias
  simp only [classifierOfText, classifierOfName_eq h, followAlias_eq h]

/-! ### Members, extensions and callees -/

theorem receiverNames_eq : receiverNames i = receiverNames j := by
  funext ls t
  simp only [receiverNames, supertypesOf_eq h]

/-- The same extensions of a type are visible at a node. -/
theorem visibleExtensions_eq : visibleExtensions i = visibleExtensions j := by
  funext ls f n name want t
  simp only [visibleExtensions, receiverNames_eq h, h.unambiguous]

/-- A member that is asked of a receiver is the same. -/
theorem accessMember_eq : accessMember i = accessMember j := by
  funext ls f receiver name n want
  simp only [accessMember, membersNamed_eq h, visibleExtensions_eq h, qualified_eq h]

theorem accessNavigation_eq : accessNavigation i = accessNavigation j := by
  funext ls f navigation want
  simp only [accessNavigation, accessMember_eq h]

theorem assignable_eq : assignable i = assignable j := by
  funext ls f target
  simp only [assignable, accessMember_eq h]

/-- Of the same candidates the same is chosen for a number of arguments. -/
theorem chooseCallable_eq : chooseCallable i = chooseCallable j := by
  funext ls candidates arguments
  simp only [chooseCallable, constructorsOf_eq h]

/-- A call leads to the same function or constructor. -/
theorem callTarget_eq : callTarget i = callTarget j := by
  funext ls f call
  simp only [callTarget, accessNavigation_eq h, chooseCallable_eq h]

theorem constructorTarget_eq : constructorTarget i = constructorTarget j := by
  funext ls f invocation
  simp only [constructorTarget, chooseCallable_eq h, constructorsOf_eq h]

/-! ### Operators and conventions -/

/-- The function that a convention asks of a type is the same. -/
theorem functionOn?_eq : functionOn? i = functionOn? j := by
  funext ls f n t name fits
  simp only [functionOn?, membersNamed_eq h, visibleExtensions_eq h]

theorem operatorCall_eq : operatorCall i = operatorCall j := by
  funext ls f n t name
  simp only [operatorCall, functionOn?_eq h]

theorem assignmentCall_eq : assignmentCall i = assignmentCall j := by
  funext ls f n
  simp only [assignmentCall, typeOfAssignable, operatorCall_eq h, assignable_eq h]

/-- An operator leads to the same function. -/
theorem operatorTarget_eq : operatorTarget i = operatorTarget j := by
  funext ls f n
  simp only [operatorTarget, namedInfixCall, unaryCall, postfixCall, indexingCall, binaryCall,
    functionOn?_eq h, operatorCall_eq h, assignmentCall_eq h]

theorem delegateCalls_eq : delegateCalls i = delegateCalls j := by
  funext ls f delegate
  simp only [delegateCalls, operatorCall_eq h]

/-! ### Types of expressions -/

theorem declaredTypeOf_eq : declaredTypeOf i = declaredTypeOf j := by
  funext ls s
  simp only [declaredTypeOf, h.anchor?]

/-- A symbol has the same type. -/
theorem typeOfSymbol_eq : typeOfSymbol i = typeOfSymbol j := by
  funext ls s
  simp only [typeOfSymbol, typeOfSymbol.ownerType, followAlias_eq h, declaredTypeOf_eq h, h.symbol?]

theorem thisType_eq : thisType i = thisType j := by
  have hat : thisTypeAt i = thisTypeAt j := by
    funext ls f label n
    simp only [thisTypeAt, h.classifierAt?]
  funext ls f n
  simp only [thisType, hat]

/-- An expression has the same type, when what it asks of lower levels is answered alike. -/
theorem typeOfExpr_eq : typeOfExpr i = typeOfExpr j := by
  funext ls f n
  simp only [typeOfExpr, accessNavigation_eq h, callTarget_eq h, operatorTarget_eq h, thisType_eq h,
    enclosingReceivers_eq h, supertypesOf_eq h]

/-! ### Levels -/

/-- A level put over others is the same. -/
theorem levelOver_eq : levelOver i = levelOver j := by
  funext ls
  rw [levelOver, levelOver, lookupName_eq h, classifierOfText_eq h, typeOfExpr_eq h,
    typeOfSymbol_eq h]

/-- **The stacks of levels are the same**, by induction on their height. -/
theorem levels_eq : levels i = levels j := by
  funext height
  induction height with
  | zero => rfl
  | succ height ih => rw [levels, levels, ih, levelOver_eq h]

end Resolve

namespace Answers

open Resolve

variable {i j : Index} (h : Agree i j)
include h

theorem callableReference_eq : callableReference i = callableReference j := by
  funext ls f n
  simp only [callableReference, membersNamed_eq h, visibleExtensions_eq h]

/-- A reference leads to the same symbols. -/
theorem referenced_eq : referenced i = referenced j := by
  funext ls f n
  simp only [referenced, accessNavigation_eq h, assignable_eq h, callableReference_eq h]

/-- What a node calls is the same. -/
theorem called_eq : called i = called j := by
  funext ls f n
  simp only [called, callTarget_eq h, constructorTarget_eq h, delegateCalls_eq h,
    operatorTarget_eq h]

/-- The same symbols are reported as stale. -/
theorem isStale_eq : isStale i = isStale j := by
  funext s
  rw [isStale, isStale, h.symbol?]

/-- **The answers about a file are the same.** -/
theorem ofIndex_eq : ofIndex i = ofIndex j := by
  funext f
  simp only [ofIndex, levels_eq h, referenced_eq h, isStale_eq h, called_eq h, delegateCalls_eq h]

end Answers

end Crossref
