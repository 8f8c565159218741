import ScannerGen.Emit.Interface
import ScannerGen.Token

/-!
# The bodies of a generated scanner

The functions of a scanner with their bodies.  The body of `yylex` loads the input, runs the
tables from the current position, keeps the last action it passed, and carries that out: an
ignored token starts over, a token with user code runs it, any other token returns its code.
-/

namespace ScannerGen.Emit

open Code

/-! ## Handles -/

def initFunction : Item :=
  .function false initSignature
    (statements ["struct yyguts_t* yyg;"] ++
      governed "if ( !yyscanner )" (statements ["return 1;"]) ++
      statements ["yyg = (struct yyguts_t*) calloc( 1, sizeof( struct yyguts_t ) );"] ++
      governed "if ( !yyg )" (statements ["return 1;"]) ++
      statements
        ["yyg->yylineno_r = 1;",
         "*yyscanner = (yyscan_t) yyg;",
         "return 0;"])

def initExtraFunction (options : Options) : Item :=
  .function false (initExtraSignature options)
    (statements ["struct yyguts_t* yyg;"] ++
      governed "if ( yylex_init( yyscanner ) )" (statements ["return 1;"]) ++
      statements ["yyg = (struct yyguts_t*) *yyscanner;"] ++
      statements ((extraDeclarators options).map fun d =>
        s!"yyg->{memberName d.name} = {d.name};") ++
      statements ["return 0;"])

def destroyHandleFunction (options : Options) : Item :=
  .function false (destroySignature options)
    (statements ["struct yyguts_t* yyg = (struct yyguts_t*) yyscanner;"] ++
      governed "if ( !yyg )" (statements ["return 0;"]) ++
      statements
        ["free( yyg->yy_buf_r );",
         "free( yyg->yytext_r );",
         "free( yyg );",
         "return 0;"])

/-- The expression for a member of the state behind the handle. -/
def handleMember (member : String) : String := s!"((struct yyguts_t*) yyscanner)->{member}"

def getterFunction (d : Declarator) (member : String) : Item :=
  .function false (getter d) (statements [s!"return {handleMember member};"])

def setterFunction (d : Declarator) (member : String) : Item :=
  .function false (setter d) (statements [s!"{handleMember member} = yyvalue;"])

def accessors (d : Declarator) (member : String) : List Item :=
  [getterFunction d member, .blank, setterFunction d member, .blank]

/-- The structure of a reentrant scanner and the functions that work on it from outside. -/
def reentrantState (options : Options) : List Item :=
  stateStruct options ++
    [initFunction, .blank] ++
    (if options.extra = [] then [] else [initExtraFunction options, .blank]) ++
    [destroyHandleFunction options, .blank] ++
    accessors inputPart "yyin_r" ++
    accessors linePart "yylineno_r" ++
    (extraDeclarators options).flatMap (fun d => accessors d (memberName d.name)) ++
    [getterFunction textPart "yytext_r", .blank,
     getterFunction lengthPart "yyleng_r", .blank]

/-! ## The scanner -/

/-- Reads the whole input into memory. -/
def loadFunction (options : Options) : Item :=
  .function true
    ⟨"int", "yy_load_input", if options.reentrant then [⟨"struct yyguts_t*", "yyg"⟩] else []⟩
    (statements ["size_t yy_n;"] ++
      governed "if ( yy_loaded )" (statements ["return 0;"]) ++
      statements ["yy_loaded = 1;"] ++
      governed "if ( !yyin )" (statements ["yyin = stdin;"]) ++
      block "for ( ;; )"
        (block "if ( yy_cap - yy_len < 4096 )"
            (statements
                ["size_t yy_new_cap = yy_cap ? yy_cap * 2 : 16384;",
                 "char* yy_new_buf = (char*) realloc( yy_buf, yy_new_cap );"] ++
              governed "if ( !yy_new_buf )" (statements ["return -1;"]) ++
              statements ["yy_buf = yy_new_buf;", "yy_cap = yy_new_cap;"]) ++
          statements
            ["yy_n = fread( yy_buf + yy_len, 1, yy_cap - yy_len, yyin );",
             "yy_len += yy_n;"] ++
          governed "if ( yy_n == 0 )" (statements ["break;"])) ++
      statements ["return 0;"])

/-- What the function is called with. -/
def loadArgument (options : Options) : String := if options.reentrant then "yyg" else ""

/-- Runs the tables from the current position to the last action. -/
def matching : List Line :=
  statements
      ["yy_state = YY_START_STATE;",
       "yy_act = 0;",
       "yy_end = yy_start;"] ++
    block "for ( yy_cp = yy_start; yy_cp < yy_len; yy_cp++ )"
      (statements ["yy_state = yy_nxt[yy_state][yy_ec[(unsigned char) yy_buf[yy_cp]]];"] ++
        governed "if ( yy_state == YY_JAM_STATE )" (statements ["break;"]) ++
        block "if ( yy_accept[yy_state] )"
          (statements ["yy_act = yy_accept[yy_state];", "yy_end = yy_cp + 1;"]))

def lineCounting : List Line :=
  block "if ( yy_eol[yy_act] )"
    (governed "for ( yy_cp = yy_start; yy_cp < yy_end; yy_cp++ )"
      (governed "if ( yy_buf[yy_cp] == '\\n' )" (statements ["yylineno++;"])))

/-- Copies the match to where the user reads it. -/
def textCopy : List Line :=
  statements ["yyleng = (int) ( yy_end - yy_start );"] ++
    block "if ( (size_t) yyleng + 1 > yy_text_cap )"
      (statements ["char* yy_new_text = (char*) realloc( yytext, (size_t) yyleng + 1 );"] ++
        governed "if ( !yy_new_text )" (statements ["return TOK_JAM;"]) ++
        statements ["yytext = yy_new_text;", "yy_text_cap = (size_t) yyleng + 1;"]) ++
    statements
      ["memcpy( yytext, yy_buf + yy_start, (size_t) yyleng );",
       "yytext[yyleng] = '\\0';"]

/-- What a token does when it is matched. -/
def tokenCase (t : Token) : List Line :=
  label s!"case {t.index + 1}: /* {t.constant} */"
    (match t.action with
    | some code => .verbatim code :: statements ["break;"]
    | none => statements [s!"return {t.constant};"])

/-- Carries out the action. -/
def dispatch (tokens : TokenTable) : List Line :=
  labelled "switch ( yy_act )"
    ((tokens.tokens.filter fun t => !t.ignored).flatMap tokenCase ++
      label "default:" (statements ["break;"]))

/-- One token after the other. -/
def scanLoop (tokens : TokenTable) (options : Options) : List Line :=
  block "for ( ;; )"
    (statements ["yy_start = yy_pos;"] ++
      block "if ( yy_start >= yy_len )" (statements ["yyleng = 0;", "return TOK_EOF;"]) ++
      blankLine ++ matching ++
      blankLine ++ block "if ( !yy_act )" (statements ["yyleng = 0;", "return TOK_JAM;"]) ++
      statements ["yy_pos = yy_end;"] ++
      (if options.lineno then blankLine ++ lineCounting else []) ++
      blankLine ++ governed "if ( yy_skip[yy_act] )" (statements ["continue;"]) ++
      blankLine ++ textCopy ++
      blankLine ++ dispatch tokens)

def lexFunction (tokens : TokenTable) (options : Options) : Item :=
  .function false (lexSignature options)
    ((if options.reentrant then
        statements ["struct yyguts_t* yyg = (struct yyguts_t*) yyscanner;"] else []) ++
      statements
        ["int yy_state;", "int yy_act;", "size_t yy_cp;", "size_t yy_start;", "size_t yy_end;"] ++
      blankLine ++
      governed s!"if ( yy_load_input( {loadArgument options} ) != 0 )"
        (statements ["return TOK_JAM;"]) ++
      blankLine ++ scanLoop tokens options)

def destroyFunction (options : Options) : Item :=
  .function false (destroySignature options)
    (statements
      ["free( yy_buf );",
       "free( yytext );",
       "yy_buf = 0;",
       "yytext = 0;",
       "yy_len = yy_cap = yy_pos = yy_text_cap = 0;",
       "yy_loaded = 0;",
       "yyleng = 0;",
       "yylineno = 1;",
       "return 0;"])

def scanner (tokens : TokenTable) (options : Options) : List Item :=
  (if options.reentrant then openState options else []) ++
    [loadFunction options, .blank, lexFunction tokens options, .blank] ++
    (if options.reentrant then closeState options else [destroyFunction options, .blank])

/-- Finds the name of a token id. -/
def nameFunction (options : Options) : Item :=
  .function false (nameSignature options)
    (statements ["int yy_i;"] ++
      governed "if ( id == TOK_JAM )" (statements ["return \"TOK_JAM\";"]) ++
      governed "for ( yy_i = 0; yy_i <= YY_NUM_TOKENS; yy_i++ )"
        (governed "if ( yy_token_id[yy_i] == id )" (statements ["return yy_token_name[yy_i];"])) ++
      statements ["return \"<invalid>\";"])

end ScannerGen.Emit
