import HdlSim.Trigger
import HdlSim.Writer

/-!
# Lines of a model

A model is written line by line.  Each line is one of the forms below; `Line.text` is what it looks
like.  Indentation is the writer's business.
-/

namespace HdlSim

/-- How a comment begins. -/
inductive CommentMark where
  /-- The documentation of what follows. -/
  | doc
  /-- A remark inside a function. -/
  | note
deriving DecidableEq

/-- The characters with which a comment begins. -/
def CommentMark.text : CommentMark → String
  | .doc => "///"
  | .note => "//"

/-- A line of a model. -/
inductive Line where
  | comment (mark : CommentMark) (text : String)
  /-- A line that is the same in all models. -/
  | verbatim (text : String)
  | useModule (path : String) (module : HostName)
  /-- The end of a block. -/
  | close
  /-- The end of a value given to a field. -/
  | closeField
  -- Structures.
  | structDecl (name : HostName)
  | fieldDecl (name type : HostName)
  -- The model's own functions.
  | implBlock (unit : HostName)
  | typeFn (name : HostName)
  /-- The result of a function. -/
  | result (value : HostExpr)
  | newFn
  | letModel
  | letConst (name : HostName) (value : HostExpr)
  | letProxy (name : HostName) (label : String) (type : HostExpr) (init : Option HostExpr)
  | letUnit (name module : HostName) (label : String)
  | selfValue
  | fieldInit (name : HostName)
  | ioValue (io : HostName)
  | emptyIoValue (io : HostName)
  -- What the simulator calls.
  | simUnitImpl (unit : HostName)
  | modelFn
  | modelRef
  | initBodyFn
  | connect (signal : HostExpr) (unit port : HostName)
  | setInterfaces (signals : List HostExpr)
  | setProcesses (labels : List String)
  | setUnits (units : List HostExpr)
  | setSensitivity (label : String) (triggers : List HostTrigger)
  | setOutputs (label : String) (signals : List HostExpr)
  | initUnit (unit : HostName)
  | runProcessFn
  | matchIndex
  | dispatch (index : Nat) (process : HostName)
  | noProcess (unit : HostName)
  | processFn (name : HostName)
  -- Statements.
  | write (proxy value : HostExpr)
  | writeAt (proxy index value : HostExpr)
  | writeSlice (proxy high low value : HostExpr)
  | writeInvalid (proxy : HostExpr)
  | matchCond (condition : HostExpr)
  | condTrue
  | condFalse
  | condFalseEmpty
  | condInvalid
  | condInvalidEmpty
  | bareBlock
  | letSelector (selector : HostExpr)
  | ifSelectorInvalid
  | elseIfMatches (choices : List HostExpr)
  | elseBlock

/-- The test that the selector matches a choice. -/
def matchesText (choice : HostExpr) : String := "sel.matches(&" ++ choice.text ++ ")"

/-- An initial value as an argument. -/
def initText : Option HostExpr → String
  | some value => "Some(" ++ value.text ++ ")"
  | none => "None"

/-- What a line looks like. -/
def Line.text : Line → String
  | .comment mark text => commented mark.text text
  | .verbatim text => text
  | .useModule path module =>
    "use " ++ path ++ "::" ++ module.text ++ "::" ++ module.text ++ ";"
  | .close => "\x7d"
  | .closeField => "\x7d,"
  | .structDecl name => "pub struct " ++ name.text ++ " \x7b"
  | .fieldDecl name type => "pub " ++ name.text ++ ": " ++ type.text ++ ","
  | .implBlock unit => "impl " ++ unit.text ++ " \x7b"
  | .typeFn name => "pub fn " ++ name.text ++ "() -> HdlType \x7b"
  | .result value => value.text
  | .newFn => "pub fn new(sim: &mut Simulator, inst_name: &str) -> Self \x7b"
  | .letModel => "let model = SimModel::new(sim, inst_name);"
  | .letConst name value => "let " ++ name.text ++ ": HdlValue = " ++ value.text ++ ";"
  | .letProxy name label type init =>
    "let " ++ name.text ++ " = SimProxy::new(sim, &model, " ++ Text.quote label ++ ", "
      ++ type.text ++ ", " ++ initText init ++ ");"
  | .letUnit name module label =>
    "let " ++ name.text ++ " = " ++ module.text ++ "::new(sim, " ++ Text.quote label ++ ");"
  | .selfValue => "Self \x7b"
  | .fieldInit name => name.text ++ ","
  | .ioValue io => "io: " ++ io.text ++ " \x7b"
  | .emptyIoValue io => "io: " ++ io.text ++ " \x7b\x7d,"
  | .simUnitImpl unit => "impl SimUnit for " ++ unit.text ++ " \x7b"
  | .modelFn => "fn model(&mut self) -> &mut SimModel \x7b"
  | .modelRef => "&mut self.model"
  | .initBodyFn => "fn init_body(&mut self) \x7b"
  | .connect signal unit port =>
    "connect_sim_port(&" ++ signal.text ++ ", &mut self." ++ unit.text ++ ".io." ++ port.text
      ++ ");"
  | .setInterfaces signals =>
    "self.model.set_interfaces(vec![" ++ Text.commaList (HostExpr.texts signals) ++ "]);"
  | .setProcesses labels =>
    "self.model.set_processes(&[" ++ Text.commaList (labels.map Text.quote) ++ "]);"
  | .setUnits units =>
    "self.model.set_units(vec![" ++ Text.commaList (HostExpr.texts units) ++ "]);"
  | .setSensitivity label triggers =>
    "self.model.set_sensitivity(" ++ Text.quote label ++ ", vec!["
      ++ Text.commaList (triggers.map HostTrigger.text) ++ "]);"
  | .setOutputs label signals =>
    "self.model.set_outputs(" ++ Text.quote label ++ ", vec!["
      ++ Text.commaList (HostExpr.texts signals) ++ "]);"
  | .initUnit unit => "self." ++ unit.text ++ ".init_body();"
  | .runProcessFn => "fn run_process(&mut self, index: usize) \x7b"
  | .matchIndex => "match index \x7b"
  | .dispatch index process => Text.natText index ++ " => self." ++ process.text ++ "(),"
  | .noProcess unit =>
    "_ => unreachable!(\"" ++ unit.text ++ " has no process \x7bindex\x7d\"),"
  | .processFn name => "pub fn " ++ name.text ++ "(&mut self) \x7b"
  | .write proxy value => proxy.text ++ ".write(" ++ value.text ++ ");"
  | .writeAt proxy index value =>
    proxy.text ++ ".write_at(" ++ index.text ++ ", " ++ value.text ++ ");"
  | .writeSlice proxy high low value =>
    proxy.text ++ ".write_slice(" ++ high.text ++ ", " ++ low.text ++ ", " ++ value.text ++ ");"
  | .writeInvalid proxy => proxy.text ++ ".write_invalid();"
  | .matchCond condition => "match sim_eval_cond(" ++ condition.text ++ ") \x7b"
  | .condTrue => "Cond::True => \x7b"
  | .condFalse => "Cond::False => \x7b"
  | .condFalseEmpty => "Cond::False => \x7b\x7d"
  | .condInvalid => "Cond::Invalid => \x7b"
  | .condInvalidEmpty => "Cond::Invalid => \x7b\x7d"
  | .bareBlock => "\x7b"
  | .letSelector selector => "let sel = " ++ selector.text ++ ";"
  | .ifSelectorInvalid => "if !sel.is_valid() \x7b"
  | .elseIfMatches choices =>
    "\x7d else if " ++ Text.joinWith " || " (choices.map matchesText) ++ " \x7b"
  | .elseBlock => "\x7d else \x7b"

end HdlSim
