import StackLisp.Proofs.Meaning.Calls
import StackLisp.Proofs.Meaning.Loops

/-!
Compiled expressions do what the expressions mean: by induction on an evaluation, the code of what
is evaluated leads to what the evaluation comes to.
-/

namespace StackLisp.Machine

variable {host : Host} {perform : Perform}

theorem evaluates_delivered {site : Site} {memory after : Memory} {task : Task} {outcome : Outcome}
    (evaluates : Evaluates host perform site memory task outcome after) :
    Delivered host perform site memory task outcome after := by
  induction evaluates with
  | constant => exact delivers_constant
  | quote => exact delivers_quote
  | lookup looked => exact delivers_lookup looked
  | function made => exact delivers_function made
  | leave => exact delivers_exit
  | first isFirst _ part => exact delivered_first isFirst part
  | emptyBlock => exact delivers_emptyBlock
  | lastOfBlock _ last => exact delivers_lastOfBlock last
  | block _ _ first rest => exact delivers_block first rest
  | choose _ _ test chosen => exact delivers_choose test chosen
  | noCondition => exact delivers_noCondition
  | lastCondition _ last => exact delivers_lastCondition last
  | settled _ settles first => exact delivers_settled first settles
  | nextCondition _ goesOn _ first rest => exact delivers_nextCondition first goesOn rest
  | noCase => exact delivers_noCase
  | defaultCase _ default => exact delivers_defaultCase default
  | cases _ _ test rest => exact delivers_cases test rest
  | define _ bound value => exact delivers_define value bound
  | assign _ bound value => exact delivers_assign value bound
  | bind opened _ inner => exact delivers_bind opened inner
  | whileEnds _ falsy test => exact delivers_whileEnds test falsy
  | whileAgain _ truthy _ ends _ test ran rest => exact delivers_whileAgain test truthy ran ends rest
  | whileLeft _ truthy _ test ran => exact delivers_whileLeft test truthy ran
  | whileStops _ truthy _ test ran => exact delivers_whileStops test truthy ran
  | forStart opened _ begins => exact delivers_forStart opened begins
  | forEnds opened _ _ begins cycles => exact delivers_forEnds opened begins cycles
  | forInterrupted opened _ _ begins cycles => exact delivers_forInterrupted opened begins cycles
  | call evaluated looked _ operands called =>
      exact delivers_call operands (operands_count evaluated) looked called
  | callUnbound _ looked operands => exact delivers_callUnbound operands looked
  | callOther _ looked other operands => exact delivers_callOther operands looked other
  | callInterrupted _ operands => exact delivers_callInterrupted operands
  | dispatch _ evaluated _ callee operands called =>
      exact delivers_dispatch callee operands (operands_count evaluated) rfl called
  | dispatchOther _ evaluated other callee operands =>
      exact delivers_dispatchOther callee operands (operands_count evaluated) other
  | dispatchInterrupted _ _ callee operands => exact delivers_dispatchInterrupted callee operands
  | noOperand => exact delivers_noOperand
  | operand _ _ first rest => exact delivers_operand first rest
  | operandsInterrupted _ _ first rest => exact delivers_operandsInterrupted first rest
  | noBinding _ block => exact delivers_noBinding block
  | binding _ bound _ value rest => exact delivers_binding value bound rest
  | bindingRefused _ refused value => exact delivers_bindingRefused value refused
  | emptyRound => exact delivers_emptyRound
  | round _ _ first rest => exact delivers_round first rest
  | cycleEnds _ falsy test => exact delivers_cycleEnds test falsy
  | cycleRound _ truthy _ ends _ test ran rest => exact delivers_cycleRound test truthy ran ends rest
  | cycleLeft _ truthy _ test ran => exact delivers_cycleLeft test truthy ran
  | cycleStops _ truthy _ test ran => exact delivers_cycleStops test truthy ran
  | stepDone _ _ step rest => exact delivers_stepDone step rest
  | stepAgain _ _ step rest => exact delivers_stepAgain step rest
  | stepLeft _ step => exact delivers_stepLeft step
  | stepStops _ step => exact delivers_stepStops step
  | argCount made refused => exact calls_argCount made refused
  | native made accepted gives => exact calls_native made accepted gives
  | nativeStops made accepted halts => exact calls_nativeStops made accepted halts
  | tooDeep made deep => exact calls_tooDeep made deep
  | refused made room observed opened =>
      subst observed
      exact calls_refused made room opened
  | returns made room observed opened _ body =>
      subst observed
      exact calls_returns made room opened body
  | stops made room observed opened _ body =>
      subst observed
      exact calls_stops made room opened body

end StackLisp.Machine
