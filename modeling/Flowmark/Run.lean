import Flowmark.Markup.Extraction
import Flowmark.Model
import Flowmark.Settings
import Flowmark.Skeleton

namespace Flowmark

/-! # Runs

A run extracts the marks of a list of comments and builds the model that they describe.  The first
fault ends it.
-/

/-- What a run read and what it made of it. -/
structure Run where
  comments : List Comment
  transcript : Transcript
  model : Model
  deriving Repr, DecidableEq

namespace Run

/-- Run over comments under given settings. -/
def ofComments
    (settings : Settings)
    (comments : List Comment) :
    Except Fault Run :=
  match Transcript.ofComments settings.keywordTable comments with
  | .error fault => .error fault
  | .ok transcript =>
      match Model.ofTranscript settings.workflow transcript with
      | .error fault => .error fault
      | .ok model => .ok { comments, transcript, model }

/-- The texts of the comments in the order given, each on a line of its own. -/
def listing
    (run : Run) :
    String :=
  Comment.listing run.comments

/-- The skeleton of the markup, with a delimiter opening each line. -/
def skeleton
    (run : Run)
    (delimiter : String) :
    String :=
  run.transcript.skeleton delimiter

end Run

end Flowmark
