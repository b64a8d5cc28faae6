import StackListing.Stmt

/-!
# Programs can be compared

Equality of expressions, statements and programs is decidable, positions included, so that a program
can be written out and compared with the one that is read from a source.
-/

namespace StackListing

namespace Expr

mutual

/-- Whether two expressions are the same. -/
def same : Expr → Expr → Bool
  | literal v p, literal v' p' => v = v' && p = p'
  | var x p, var x' p' => x = x' && p = p'
  | unary op e p, unary op' e' p' => op = op' && e.same e' && p = p'
  | binary op e f p, binary op' e' f' p' => op = op' && e.same e' && f.same f' && p = p'
  | call e es p, call e' es' p' => e.same e' && sameAll es es' && p = p'
  | assign x e p, assign x' e' p' => x = x' && e.same e' && p = p'
  | _, _ => false

@[inherit_doc same]
def sameAll : List Expr → List Expr → Bool
  | [], [] => true
  | e :: es, e' :: es' => e.same e' && sameAll es es'
  | _, _ => false

end

mutual

theorem same_iff : ∀ e e' : Expr, e.same e' = true ↔ e = e'
  | literal _ _, e' => by cases e' <;> simp [same]
  | var _ _, e' => by cases e' <;> simp [same]
  | unary _ e _, e' => by cases e' <;> simp [same, same_iff e, and_assoc]
  | binary _ e f _, e' => by cases e' <;> simp [same, same_iff e, same_iff f, and_assoc]
  | call e es _, e' => by cases e' <;> simp [same, same_iff e, sameAll_iff es, and_assoc]
  | assign _ e _, e' => by cases e' <;> simp [same, same_iff e, and_assoc]

theorem sameAll_iff : ∀ es es' : List Expr, sameAll es es' = true ↔ es = es'
  | [], es' => by cases es' <;> simp [sameAll]
  | e :: es, es' => by cases es' <;> simp [sameAll, same_iff e, sameAll_iff es]

end

instance decidableEq : DecidableEq Expr := fun e e' => decidable_of_iff _ (same_iff e e')

end Expr

namespace Stmt

mutual

/-- Whether two statements are the same. -/
def same : Stmt → Stmt → Bool
  | expr e, expr e' => e = e'
  | variableDecl t x i p, variableDecl t' x' i' p' => t = t' && x = x' && i = i' && p = p'
  | block b p, block b' p' => sameAll b b' && p = p'
  | branch c s n p, branch c' s' n' p' => c = c' && s.same s' && sameOption n n' && p = p'
  | whileLoop c s p, whileLoop c' s' p' => c = c' && s.same s' && p = p'
  | forLoop i c n s p, forLoop i' c' n' s' p' =>
    sameOption i i' && c = c' && n = n' && s.same s' && p = p'
  | giveBack v p, giveBack v' p' => v = v' && p = p'
  | functionDecl t x ps b q p, functionDecl t' x' ps' b' q' p' =>
    t = t' && x = x' && ps = ps' && sameAll b b' && q = q' && p = p'
  | print e p, print e' p' => e = e' && p = p'
  | _, _ => false

@[inherit_doc same]
def sameAll : List Stmt → List Stmt → Bool
  | [], [] => true
  | s :: ss, s' :: ss' => s.same s' && sameAll ss ss'
  | _, _ => false

@[inherit_doc same]
def sameOption : Option Stmt → Option Stmt → Bool
  | none, none => true
  | some s, some s' => s.same s'
  | _, _ => false

end

mutual

theorem same_iff : ∀ s s' : Stmt, s.same s' = true ↔ s = s'
  | expr _, s' => by cases s' <;> simp [same]
  | variableDecl _ _ _ _, s' => by cases s' <;> simp [same, and_assoc]
  | block b _, s' => by cases s' <;> simp [same, sameAll_iff b]
  | branch _ s n _, s' => by cases s' <;> simp [same, same_iff s, sameOption_iff n, and_assoc]
  | whileLoop _ s _, s' => by cases s' <;> simp [same, same_iff s, and_assoc]
  | forLoop i _ _ s _, s' => by cases s' <;> simp [same, sameOption_iff i, same_iff s, and_assoc]
  | giveBack _ _, s' => by cases s' <;> simp [same]
  | functionDecl _ _ _ b _ _, s' => by cases s' <;> simp [same, sameAll_iff b, and_assoc]
  | print _ _, s' => by cases s' <;> simp [same]

theorem sameAll_iff : ∀ ss ss' : List Stmt, sameAll ss ss' = true ↔ ss = ss'
  | [], ss' => by cases ss' <;> simp [sameAll]
  | s :: ss, ss' => by cases ss' <;> simp [sameAll, same_iff s, sameAll_iff ss]

theorem sameOption_iff : ∀ s s' : Option Stmt, sameOption s s' = true ↔ s = s'
  | none, s' => by cases s' <;> simp [sameOption]
  | some s, s' => by cases s' <;> simp [sameOption, same_iff s]

end

instance decidableEq : DecidableEq Stmt := fun s s' => decidable_of_iff _ (same_iff s s')

end Stmt

instance Program.decidableEq : DecidableEq Program := fun p q =>
  decidable_of_iff (p.statements = q.statements) (by cases p; cases q; simp)

end StackListing
