import Mathlib.Data.List.Basic

/- Computations that read a changing world through questions only.

   A `QueryTree` asks one question after another and goes on with the answer; what it
   computes is a function of the answers it gets. Two worlds that answer the questions
   asked alike give the same result (`run_congr`), whatever else differs between them.
   This is what a cache of such results relies on. -/
namespace TurboScript.Lib

/-- A computation with questions in `Q` and answers in `A`. -/
inductive QueryTree (Q A α : Type) where
  | done (a : α)
  | ask (q : Q) (k : A → QueryTree Q A α)

namespace QueryTree
variable {Q A α β : Type}

/-- The result in a world that answers by `o`. -/
def run (o : Q → A) : QueryTree Q A α → α
  | done a => a
  | ask q k => run o (k (o q))

/-- The questions asked in a world that answers by `o`, in their order. -/
def asked (o : Q → A) : QueryTree Q A α → List Q
  | done _ => []
  | ask q k => q :: asked o (k (o q))

def bind (t : QueryTree Q A α) (f : α → QueryTree Q A β) : QueryTree Q A β :=
  match t with
  | done a => f a
  | ask q k => ask q fun a => (k a).bind f

instance : Monad (QueryTree Q A) where
  pure := done
  bind := bind

def query (q : Q) : QueryTree Q A A := ask q done

theorem run_congr {o o' : Q → A} (t : QueryTree Q A α) (h : ∀ q ∈ asked o t, o' q = o q) :
    run o' t = run o t := by
  induction t with
  | done a => rfl
  | ask q k ih =>
    show run o' (k (o' q)) = run o (k (o q))
    rw [h q (List.mem_cons_self ..)]
    exact ih _ fun p hp => h p (List.mem_cons_of_mem _ hp)

end QueryTree

end TurboScript.Lib
